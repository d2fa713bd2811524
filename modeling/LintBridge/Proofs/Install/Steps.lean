import LintBridge.Install.Installer
import LintBridge.Proofs.Files.Writing
import LintBridge.Proofs.Install.Confined

namespace LintBridge

/-- What comes of asking for a URL to download. -/
def Download.answer (options : DownloadOptions) (network : Network) (url : Url) :
    List HttpRequest × Except InstallError (Url × HttpReply) :=
  match network options with
  | none => ([], .error .client)
  | some send => Download.chase send url Download.maxRedirects [] url

/-- Keep the body of a reply as a file in a directory that is there. -/
def Download.keepIn (t : FileTree) (dest : Path) (url : Url) (reply : HttpReply) :
    FileTree × Except InstallError Nat :=
  match t.write dest [] with
  | .error fault => (t, .error (Unpack.failure "creating" dest fault.message))
  | .ok t₁ =>
    match t.write dest reply.body with
    | .error fault => (t₁, .error (Unpack.failure "writing" dest fault.message))
    | .ok t₂ => (t₂, if reply.whole then .ok reply.body.length else .error (.network url.text))

/-- To keep a reply is to make the directory first and then the file, which takes the body. -/
theorem Download.keep_eq (t : FileTree) (dest : Path) (url : Url) (reply : HttpReply) :
    Download.keep t dest url reply =
      match dest.parent? with
      | none => Download.keepIn t dest url reply
      | some parent =>
        match t.createAll parent with
        | (t, none) => Download.keepIn t dest url reply
        | (t, some fault) =>
          (t, .error (Unpack.failure "creating" parent fault.message)) := by
  have tail (t : FileTree) : (match t.write dest [] with
      | .error fault => (t, .error (Unpack.failure "creating" dest fault.message))
      | .ok t =>
        match t.append dest reply.body with
        | .error fault => (t, .error (Unpack.failure "writing" dest fault.message))
        | .ok t =>
          if reply.whole then (t, .ok reply.body.length)
          else (t, .error (.network url.text))) = Download.keepIn t dest url reply := by
    rw [keepIn]
    cases made : t.write dest [] with
    | error fault => rfl
    | ok t₁ =>
      have same : t₁.append dest reply.body = t.write dest reply.body := by
        rw [FileTree.append, FileTree.read_write made, FileTree.write_write made]
        rfl
      dsimp only
      rw [same]
      cases t.write dest reply.body with
      | error fault => rfl
      | ok t₂ => cases reply.whole <;> rfl
  rw [Download.keep]
  cases dest.parent? with
  | none => exact tail t
  | some parent =>
    dsimp only
    cases made : t.createAll parent with
    | mk t₁ fault =>
      cases fault with
      | none => exact tail t₁
      | some fault => rfl

/-- A release to install below a directory, by a program that reads archives in some way. -/
structure Setup (reader : ArchiveReader) (target : Path) where
  mode : Mode
  proxy : Option String
  strictSsl : Bool
  network : Network
  release : Release
  /-- The pieces in which the archive arrives. -/
  pieces : List Bytes
  arrives : ∀ current reply,
    (Download.answer ⟨proxy, strictSsl⟩ network release.url).2 = .ok (current, reply) →
      pieces.flatten = reply.body

/-- The files as installations find them, each at its own step. -/
structure Disk where
  tree : FileTree
  /-- The number of the file that the archive is, or will be once it is made again. -/
  file : Nat
  /-- Files that were the archive and were taken away, by number. -/
  lost : List (Nat × Bytes)

namespace Disk

/-- What a file holds, wherever it lies. -/
def content (d : Disk) (archive : Path) (n : Nat) : Bytes :=
  if n = d.file then (d.tree.read archive).toOption.getD [] else (d.lost.lookup n).getD []

/-- Bytes laid over others from an offset on; what is missing before it is zero. -/
def overlay (old : Bytes) (offset : Nat) (new : Bytes) : Bytes :=
  (old ++ List.replicate (offset - old.length) 0).take offset ++ new ++
    old.drop (offset + new.length)

theorem overlay_append (old new : Bytes) : overlay old old.length new = old ++ new := by
  simp [overlay]

/-- Write a piece into a file that is open. -/
def writeAt (d : Disk) (archive : Path) (n offset : Nat) (piece : Bytes) : Except Fault Disk :=
  let bytes := overlay (d.content archive n) offset piece
  if n = d.file then (d.tree.write archive bytes).map fun t => { d with tree := t }
  else .ok { d with lost := (n, bytes) :: d.lost }

/-- Take the archive away, whoever has made it. -/
def remove (d : Disk) (archive : Path) : Disk :=
  match d.tree.remove archive with
  | .ok t => ⟨t, d.file + 1, (d.file, d.content archive d.file) :: d.lost⟩
  | .error _ => d

end Disk

/-- How far an installation has come. -/
inductive Setup.Stage where
  /-- Waits for the server. -/
  | asking
  | preparing (current : Url) (reply : HttpReply)
  | creating (current : Url) (reply : HttpReply)
  /-- Writes what is left into the file it has made, from an offset on. -/
  | writing (current : Url) (reply : HttpReply) (file offset : Nat) (left : List Bytes)
  | loaded
  | opening
  /-- Unpacks the entries that are left of the file it has opened. -/
  | unpacking (file : Nat) (left : List ArchiveEntry)
  | tidying (r : Except InstallError Path)
  | done (r : Except InstallError Path)

namespace Setup

variable {reader : ArchiveReader} {target : Path}

/-- The file that every release for a directory is loaded into. -/
def archive (_ : Setup reader target) : Path := target.child "temp.zip"

/-- What the installation is given to work with. -/
def means (j : Setup reader target) : InstallMeans := ⟨j.network, reader⟩

/-- What the release is answered with that the installation asks for. -/
def answer (j : Setup reader target) : List HttpRequest × Except InstallError (Url × HttpReply) :=
  Download.answer ⟨j.proxy, j.strictSsl⟩ j.network j.release.url

/-- What the installation comes to where nothing comes between its steps. -/
def alone (j : Setup reader target) (t : FileTree) : Installation :=
  Installer.installRelease ⟨j.mode, target, j.proxy, j.strictSsl⟩ j.means false t j.release

/-- An installation goes on by one step. -/
def step (j : Setup reader target) (d : Disk) : Stage → Disk × Stage
  | .asking =>
    match j.answer.2 with
    | .error error => (d, .tidying (.error error))
    | .ok (current, reply) => (d, .preparing current reply)
  | .preparing current reply =>
    match j.archive.parent? with
    | none => (d, .creating current reply)
    | some parent =>
      match d.tree.createAll parent with
      | (t, none) => ({ d with tree := t }, .creating current reply)
      | (t, some fault) => ({ d with tree := t },
        .tidying (.error (Unpack.failure "creating" parent fault.message)))
  | .creating current reply =>
    match d.tree.write j.archive [] with
    | .error fault => (d, .tidying (.error (Unpack.failure "creating" j.archive fault.message)))
    | .ok t => ({ d with tree := t }, .writing current reply d.file 0 j.pieces)
  | .writing current reply n offset (piece :: left) =>
    match d.writeAt j.archive n offset piece with
    | .error fault => (d, .tidying (.error (Unpack.failure "writing" j.archive fault.message)))
    | .ok d => (d, .writing current reply n (offset + piece.length) left)
  | .writing current reply _ _ [] =>
    (d, if reply.whole then .loaded else .tidying (.error (.network current.text)))
  | .loaded => (d, .opening)
  | .opening =>
    match d.tree.read j.archive with
    | .error .isDirectory => (d, .tidying (.error (.archive j.archive.display)))
    | .error fault => (d, .tidying (.error (Unpack.failure "opening" j.archive fault.message)))
    | .ok file =>
      match reader.entries? file with
      | none => (d, .tidying (.error (.archive j.archive.display)))
      | some es =>
        match d.tree.createAll target with
        | (t, some fault) => ({ d with tree := t },
          .tidying (.error (Unpack.failure "creating" target fault.message)))
        | (t, none) => ({ d with tree := t }, .unpacking d.file es)
  | .unpacking n (e :: es) =>
    match Unpack.entry (fun t => { d with tree := t }.content j.archive n) j.archive target
      d.tree e with
    | (t, .failed error) => ({ d with tree := t }, .tidying (.error error))
    | (t, _) => ({ d with tree := t }, .unpacking n es)
  | .unpacking _ [] => (d, .tidying (.ok (j.release.installPath target)))
  | .tidying r => (d.remove j.archive, .done r)
  | .done r => (d, .done r)

/-- An installation goes on by some steps. -/
def steps (j : Setup reader target) : Nat → Disk × Stage → Disk × Stage
  | 0, x => x
  | k + 1, x => j.steps k (j.step x.1 x.2)

/-- Whether an installation comes from one point to another where nothing comes between. -/
def Comes (j : Setup reader target) (x y : Disk × Stage) : Prop := ∃ k, j.steps k x = y

section Alone

variable {j : Setup reader target} {d : Disk}

theorem steps_add (k m : Nat) (x : Disk × Stage) : j.steps (k + m) x = j.steps m (j.steps k x) := by
  induction k generalizing x with
  | zero => rw [Nat.zero_add]; rfl
  | succ k ih => rw [Nat.succ_add]; exact ih _

theorem Comes.refl (x : Disk × Stage) : j.Comes x x := ⟨0, rfl⟩

theorem Comes.trans {x y z : Disk × Stage} (first : j.Comes x y) (second : j.Comes y z) :
    j.Comes x z := by
  obtain ⟨k, rfl⟩ := first
  obtain ⟨m, rfl⟩ := second
  exact ⟨k + m, steps_add k m x⟩

theorem Comes.step {x : Disk × Stage} {y : Disk × Stage} (next : j.step x.1 x.2 = y) :
    j.Comes x y := ⟨1, next⟩

/-- Where an installation comes to its end, it comes there from every point on the way. -/
theorem Comes.done_of {x y : Disk × Stage} {d : Disk} {r : Except InstallError Path}
    (ends : j.Comes x (d, .done r)) (way : j.Comes x y) : j.Comes y (d, .done r) := by
  obtain ⟨k, ends⟩ := ends
  obtain ⟨m, rfl⟩ := way
  have still (i : Nat) : j.steps i (d, .done r) = (d, .done r) := by
    induction i with
    | zero => rfl
    | succ i ih => exact ih
  refine ⟨k, ?_⟩
  rw [← steps_add, Nat.add_comm, steps_add, ends, still]

theorem Comes.done_unique {x : Disk × Stage} {d d' : Disk} {r r' : Except InstallError Path}
    (ends : j.Comes x (d, .done r)) (ends' : j.Comes x (d', .done r')) : d = d' ∧ r = r' := by
  obtain ⟨k, same⟩ := ends.done_of ends'
  have still : j.steps k (d', .done r') = (d', .done r') := by
    clear same
    induction k with
    | zero => rfl
    | succ i ih => exact ih
  cases still.symm.trans same
  exact ⟨rfl, rfl⟩

/-- Pieces that are written one by one are written behind one another. -/
theorem comes_writing {t₁ : FileTree} {bytes : Bytes} (current : Url) (reply : HttpReply)
    (left : List Bytes) (written : t₁.write j.archive bytes = .ok d.tree) :
    ∃ t, t₁.write j.archive (bytes ++ left.flatten) = .ok t ∧
      j.Comes (d, .writing current reply d.file bytes.length left)
        ({ d with tree := t },
          .writing current reply d.file (bytes ++ left.flatten).length []) := by
  induction left generalizing d bytes with
  | nil =>
    rw [List.flatten_nil, List.append_nil]
    exact ⟨d.tree, written, .refl _⟩
  | cons piece left ih =>
    obtain ⟨t', written'⟩ := FileTree.write_any written (bytes ++ piece)
    have wrote : d.writeAt j.archive d.file bytes.length piece = .ok { d with tree := t' } := by
      have held : d.content j.archive d.file = bytes := by
        rw [Disk.content, if_pos rfl, FileTree.read_write written]
        rfl
      rw [Disk.writeAt, if_pos rfl, held, Disk.overlay_append, FileTree.write_write written,
        written']
      rfl
    obtain ⟨t, whole, comes⟩ := ih (d := { d with tree := t' }) written'
    rw [List.flatten_cons, ← List.append_assoc]
    refine ⟨t, whole, .trans (.step ?_) comes⟩
    rw [step, wrote, List.length_append]

/-- Where an installation stands once the archive has been kept, or could not be. -/
def ofKept : Except InstallError Nat → Stage
  | .ok _ => .loaded
  | .error error => .tidying (.error error)

/-- The archive is kept as it is where all of it arrives at once. -/
theorem comes_kept {current : Url} {reply : HttpReply} (whole : j.pieces.flatten = reply.body) :
    j.Comes (d, .preparing current reply)
      ({ d with tree := (Download.keep d.tree j.archive current reply).1 },
        ofKept (Download.keep d.tree j.archive current reply).2) := by
  have tail (t : FileTree) : j.Comes ({ d with tree := t }, .creating current reply)
      ({ d with tree := (Download.keepIn t j.archive current reply).1 },
        ofKept (Download.keepIn t j.archive current reply).2) := by
    rw [Download.keepIn]
    cases made : t.write j.archive [] with
    | error fault =>
      refine .step ?_
      rw [step, made]
      rfl
    | ok t₁ =>
      obtain ⟨t₂, wrote, comes⟩ :=
        comes_writing (d := { d with tree := t₁ }) current reply j.pieces made
      rw [List.nil_append, whole] at wrote comes
      dsimp only
      rw [wrote]
      refine .trans (.step ?_) (.trans comes (.step ?_))
      · rw [step, made]
        rfl
      · rw [step]
        cases reply.whole <;> rfl
  cases above : j.archive.parent? with
  | none =>
    rw [Download.keep_eq, above]
    refine .trans (.step ?_) (tail d.tree)
    rw [step, above]
  | some parent =>
    rw [Download.keep_eq, above]
    dsimp only
    cases made : d.tree.createAll parent with
    | mk t fault =>
      cases fault with
      | none =>
        refine .trans (.step ?_) (tail t)
        rw [step, above]
        dsimp only
        rw [made]
      | some fault =>
        refine .step ?_
        rw [step, above]
        dsimp only
        rw [made]
        rfl

/-- The entries of an archive that is open are unpacked as they are all at once. -/
theorem comes_unpacked (es : List ArchiveEntry) :
    j.Comes (d, .unpacking d.file es)
      ({ d with tree := (Unpack.entries j.archive target d.tree es).1 },
        .tidying ((Unpack.entries j.archive target d.tree es).2.map fun _ =>
          j.release.installPath target)) := by
  induction es generalizing d with
  | nil => exact .step rfl
  | cons e es ih =>
    -- while it lies where it was opened the archive is looked at under its path
    have seen : (fun t => Disk.content { d with tree := t } j.archive d.file) =
        Unpack.inPlace j.archive := by
      funext t
      exact if_pos rfl
    rw [Unpack.entries]
    cases came : Unpack.entry (Unpack.inPlace j.archive) j.archive target d.tree e with
    | mk t outcome =>
      have next := ih (d := { d with tree := t })
      cases outcome with
      | failed error =>
        refine .step ?_
        rw [step, seen, came]
        rfl
      | skipped | directory =>
        refine .trans (.step ?_) next
        rw [step, seen, came]
      | file p =>
        have first : j.Comes (d, .unpacking d.file (e :: es))
            ({ d with tree := t }, .unpacking d.file es) := .step (by rw [step, seen, came])
        refine first.trans ?_
        dsimp only
        cases rest : Unpack.entries j.archive target t es with
        | mk t' r =>
          simp only [rest] at next
          cases r <;> exact next

/-- An archive is opened and unpacked as it is all at once. -/
theorem comes_opened : j.Comes (d, .opening)
    ({ d with tree := (unpack reader d.tree j.archive target).1 },
      .tidying ((unpack reader d.tree j.archive target).2.map fun _ =>
        j.release.installPath target)) := by
  rw [unpack]
  cases found : d.tree.read j.archive with
  | error fault => cases fault <;> exact .step (by rw [step, found]; rfl)
  | ok file =>
    dsimp only
    cases listed : reader.entries? file with
    | none => exact .step (by rw [step, found]; dsimp only; rw [listed]; rfl)
    | some es =>
      dsimp only
      cases made : d.tree.createAll target with
      | mk t fault =>
        cases fault with
        | some fault =>
          exact .step (by rw [step, found]; dsimp only; rw [listed]; dsimp only; rw [made]; rfl)
        | none =>
          refine .trans (.step ?_) (comes_unpacked (d := { d with tree := t }) es)
          rw [step, found]
          dsimp only
          rw [listed]
          dsimp only
          rw [made]

theorem remove_tree (d : Disk) (r : InstallRequest) (below : r.targetDir = target) :
    (d.remove j.archive).tree = Installer.tidy r d.tree := by
  rw [Disk.remove, Installer.tidy, Installer.archivePath, below]
  change (match d.tree.remove (target.child "temp.zip") with | .ok t => _ | .error _ => d).tree = _
  cases d.tree.remove (target.child "temp.zip") <;> rfl

/-- A download keeps what it is answered with. -/
theorem fetch_eq (j : Setup reader target) (t : FileTree) :
    Installer.fetch ⟨j.mode, target, j.proxy, j.strictSsl⟩ j.network false t j.release =
      match j.answer with
      | (sent, .error error) => (sent, t, .error error)
      | (sent, .ok (current, reply)) =>
        (sent, Download.keep t j.archive current reply) := by
  rw [Installer.fetch, download, answer, Download.answer]
  cases j.network ⟨j.proxy, j.strictSsl⟩ with
  | none => rfl
  | some send =>
    dsimp only [Bool.false_eq_true, if_false]
    rcases Download.chase send j.release.url Download.maxRedirects [] j.release.url with
      ⟨sent, error | ⟨current, reply⟩⟩ <;> rfl

/-- What an installation comes to that ends with a result. -/
def ended (j : Setup reader target) (sent : List HttpRequest) (t : FileTree)
    (r : Except InstallError Path) : Installation :=
  ⟨Installer.tidy ⟨j.mode, target, j.proxy, j.strictSsl⟩ t, sent, [], r⟩

/-- An installation is made up of what the server answers, of keeping and of unpacking that. -/
theorem alone_eq (j : Setup reader target) (t : FileTree) : j.alone t =
    match j.answer with
    | (sent, .error error) => j.ended sent t (.error error)
    | (sent, .ok (current, reply)) =>
      match Download.keep t j.archive current reply with
      | (t, .error error) => j.ended sent t (.error error)
      | (t, .ok _) =>
        j.ended sent (unpack reader t j.archive target).1
          ((unpack reader t j.archive target).2.map fun _ => j.release.installPath target) := by
  rw [alone, Installer.installRelease, means, fetch_eq]
  rcases j.answer with ⟨sent, error | ⟨current, reply⟩⟩
  · rfl
  dsimp only
  rcases Download.keep t j.archive current reply with ⟨t, error | size⟩
  · rfl
  have archive : Installer.archivePath ⟨j.mode, target, j.proxy, j.strictSsl⟩ = j.archive := rfl
  dsimp only
  rw [archive]
  rcases unpack reader t j.archive target with ⟨t', error | paths⟩ <;> rfl

/-- Where an installation stands at its end. -/
theorem comes_done (sent : List HttpRequest) (d : Disk) (r : Except InstallError Path) : ∃ d',
    j.Comes (d, .tidying r) (d', .done (j.ended sent d.tree r).result) ∧
      d'.tree = (j.ended sent d.tree r).tree :=
  ⟨_, .step rfl, remove_tree d _ rfl⟩

/-- With nothing between them the steps come to the installation. -/
theorem comes_alone (j : Setup reader target) (d : Disk) : ∃ d',
    j.Comes (d, .asking) (d', .done (j.alone d.tree).result) ∧ d'.tree = (j.alone d.tree).tree := by
  have onward {x : Disk × Stage} (sent : List HttpRequest) (d₁ : Disk)
      (r : Except InstallError Path) (way : j.Comes x (d₁, .tidying r)) : ∃ d',
      j.Comes x (d', .done (j.ended sent d₁.tree r).result) ∧
        d'.tree = (j.ended sent d₁.tree r).tree := by
    obtain ⟨d', ends, tree⟩ := comes_done (j := j) sent d₁ r
    exact ⟨d', way.trans ends, tree⟩
  rw [alone_eq]
  rcases said : j.answer with
    ⟨sent, error | ⟨current, reply⟩⟩
  · exact onward sent d _ (.step (by rw [step, said]))
  have asked : j.Comes (d, .asking) (d, .preparing current reply) := .step (by rw [step, said])
  have kept := asked.trans (comes_kept (j.arrives current reply (congrArg Prod.snd said)))
  dsimp only
  rcases keeps : Download.keep d.tree j.archive current reply with ⟨t, error | size⟩ <;>
    rw [keeps] at kept
  · exact onward sent { d with tree := t } _ kept
  · have unpacked := kept.trans (.trans (.step rfl) (comes_opened (d := { d with tree := t })))
    exact onward sent { d with tree := (unpack reader t j.archive target).1 } _ unpacked

end Alone

end Setup

end LintBridge
