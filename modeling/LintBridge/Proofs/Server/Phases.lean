import LintBridge.Proofs.Rpc.Framing
import LintBridge.Proofs.Server.Stage

namespace LintBridge

/-- The frame that is read, if one is. -/
def Frame.Next.value? : Frame.Next → Option Json
  | frame value _ => some value
  | unfinished | ended | failed _ => none

/-- What can happen to a server while its session lasts. Frames come as bytes. -/
inductive Occasion where
  | heard (bytes : Bytes)
  /-- No more bytes will come. -/
  | hungUp
  /-- The next frame is read and met, if it is there. -/
  | read
  /-- A task has its turn, or what it waits for comes. -/
  | other (i : Incident)

/-- What becomes of a workspace and its tasks while the session lasts. -/
inductive Site.Goes (first : Site) : Site → Prop
  | stays : Goes first first
  | moved {site : Site} (m : Move) : Goes first site → Goes first (site.move m)
  | refused {site : Site} :
      Goes first site → Goes first { site with tasks := site.tasks ++ [none] }
  | looked {site : Site} (document : String) :
      Goes first site → Goes first { site with workspace := site.workspace.lookAt document }
  | shut {site : Site} :
      Goes first site → Goes first { site with workspace := site.workspace.shutdown }

theorem Site.Goes.trans {first second third : Site} (before : first.Goes second)
    (later : second.Goes third) : first.Goes third := by
  induction later with
  | stays => exact before
  | moved m _ ih => exact .moved m ih
  | refused _ ih => exact .refused ih
  | looked document _ ih => exact .looked document ih
  | shut _ ih => exact .shut ih

namespace Server

variable {s : Server}

/-- What is read next. -/
def ahead (s : Server) : Frame.Next := Frame.next Frame.defaultLimit s.closed s.input

/-- Face an occasion. Once the session has ended there is none. -/
def face (s : Server) (o : Occasion) : Server :=
  if s.ended.isSome then s
  else
    match o with
    | .heard bytes => if s.closed then s else s.feed bytes
    | .hungUp => { s with closed := true }
    | .read => s.serve 1
    | .other i => if i.frame?.isSome then s else s.meet i

/-- Face one occasion after another. -/
def play (s : Server) (occasions : List Occasion) : Server := occasions.foldl face s

/-- The frame that is read with an occasion. -/
def reading? (s : Server) (o : Occasion) : Option Json :=
  if s.ended.isSome then none
  else
    match o with
    | .read => s.ahead.value?
    | _ => none

/-- The frames that are read, in order. -/
def readings (s : Server) : List Occasion → List Json
  | [] => []
  | o :: rest => (s.reading? o).toList ++ (s.face o).readings rest

/-- The bytes that come with an occasion. -/
def bytesOf (s : Server) (o : Occasion) : Bytes :=
  if s.ended.isSome then []
  else
    match o with
    | .heard bytes => if s.closed then [] else bytes
    | _ => []

/-- The bytes that come, in order. -/
def received (s : Server) : List Occasion → Bytes
  | [] => []
  | o :: rest => s.bytesOf o ++ (s.face o).received rest

/-- How a session ends by the frames that were read of it and by what is ahead. -/
inductive Ends (s : Server) (frames : List Json) : Option Served → Prop
  | lasts : (∀ f ∈ frames, Rpc.isExit f = false) → Ends s frames none
  | exits {f : Json} : f ∈ frames → Rpc.isExit f = true →
      Ends s frames (some (.left s.shuttingDown))
  | hangsUp : (∀ f ∈ frames, Rpc.isExit f = false) → s.ahead = .ended →
      Ends s frames (some (.left s.shuttingDown))
  | fails {e : FrameError} : (∀ f ∈ frames, Rpc.isExit f = false) → s.ahead = .failed e →
      Ends s frames (some (.failed e))

/-- What holds of a server throughout its session, with the bytes that have come and the frames that
were read of them. -/
structure Abreast (env : Environment) (d : Defaults) (files : FileTree) (bytes : Bytes)
    (frames : List Json) (s : Server) : Prop where
  past : ∃ h, s.Past env d files h
  reads : Frame.Reads Frame.defaultLimit s.closed bytes frames s.input
  stage : s.stage = Rpc.Stage.after frames
  ends : s.Ends frames s.ended

variable {env : Environment} {d : Defaults} {files : FileTree} {bytes : Bytes}
  {frames : List Json}

theorem serve_one (running : s.ended = none) : s.serve 1 =
    match s.ahead with
    | .unfinished => s
    | .ended => s.leave
    | .failed e => { s with ended := some (.failed e) }
    | .frame value rest => { s with input := rest }.handle value := by
  rw [serve, running, Option.isSome_none, if_neg Bool.false_ne_true, ahead]
  rfl

theorem meet_line (s : Server) {i : Incident} (other : ∀ value, i ≠ .frame value) :
    (s.meet i).line = s.line := by
  unfold meet
  split
  · rfl
  cases i with
  | frame value => exact absurd rfl (other value)
  | goOn n =>
    dsimp only
    split
    · rfl
    · exact advance_line s n
  | answer n a =>
    dsimp only
    split
    · rfl
    · exact move_line s _
  | finish client kept n r =>
    dsimp only
    split
    · exact move_line s _
    · rfl
  | elapse ms => rfl

theorem handle_of_exit {frame : Json} (exit : Rpc.isExit frame = true) :
    s.handle frame = s.leave := by
  unfold Rpc.isExit at exit
  split at exit
  · rename_i method params message
    rw [handle, message]
    exact if_pos (of_decide_eq_true exit)
  · cases exit

theorem move?_of_none (closed : s.site? = none) (idle : s.jobs = []) {i : Incident}
    (other : ∀ value, i ≠ .frame value) : s.move? i = none := by
  cases i with
  | frame value => exact absurd rfl (other value)
  | goOn n => simp only [move?, idle, List.getElem?_nil]
  | answer n a => simp only [move?, isOver, idle, List.getElem?_nil, if_true]
  | finish client kept n r => simp [move?, closed]
  | elapse ms => rfl

/-- Tasks leave the stage of the session alone, and do not end it. -/
theorem meet_other {h : Chronicle} (past : s.Past env d files h)
    (running : s.ended.isSome = false) {i : Incident} (other : ∀ value, i ≠ .frame value) :
    (s.meet i).stage = s.stage ∧ (s.meet i).ended = s.ended := by
  have turn := s.meet_turn running other
  generalize gist : (s.meet i).gist = g at turn
  have ended : (s.meet i).ended = g.ended := congrArg Gist.ended gist
  rw [stage_of_gist gist, ended]
  cases turn with
  | rest | refuse => exact ⟨rfl, rfl⟩
  | move move =>
    refine ⟨?_, rfl⟩
    cases closed : s.site? with
    | none =>
      have none := move?_of_none closed (past.closed closed).1 other
      cases none.symm.trans move
    | some site =>
      rw [stage_of_some (by rw [closed]; rfl)]
      rfl

theorem Ends.lasts_of_none (ends : s.Ends frames s.ended) (running : s.ended = none) :
    ∀ f ∈ frames, Rpc.isExit f = false := by
  rw [running] at ends
  cases ends
  assumption

/-- What is not looked at as the session goes on may change. -/
theorem Past.of_same {h : Chronicle} (past : s.Past env d files h) (input : Bytes) (closed : Bool)
    (ended : Option Served) :
    Server.Past env d files h { s with input := input, closed := closed, ended := ended } :=
  ⟨past.env_eq, past.defaults_eq, past.files_eq, past.closed, past.opened⟩

theorem Abreast.read (abreast : s.Abreast env d files bytes frames) (running : s.ended = none) :
    (s.serve 1).Abreast env d files bytes (frames ++ s.ahead.value?.toList) := by
  obtain ⟨⟨h, past⟩, reads, stage, ends⟩ := abreast
  have lasts := ends.lasts_of_none running
  rw [serve_one running]
  cases ahead : s.ahead with
  | unfinished =>
    rw [Frame.Next.value?, Option.toList_none, List.append_nil]
    exact ⟨⟨h, past⟩, reads, stage, ends⟩
  | ended =>
    rw [Frame.Next.value?, Option.toList_none, List.append_nil]
    exact ⟨⟨h, past.of_same _ _ _⟩, reads, stage, .hangsUp lasts ahead⟩
  | failed e =>
    rw [Frame.Next.value?, Option.toList_none, List.append_nil]
    exact ⟨⟨h, past.of_same _ _ _⟩, reads, stage, .fails lasts ahead⟩
  | frame value rest =>
    have past' := past.of_same rest s.closed s.ended
    have handled := handle_handled (s := { s with input := rest })
      (fun closed => (past.closed closed).2.1) value
    have met := past'.meet (.frame value)
    rw [meet_frame (by rw [running]; rfl)] at met
    have input : ({ s with input := rest }.handle value).input = rest :=
      congrArg Prod.fst handled.line
    have closed : ({ s with input := rest }.handle value).closed = s.closed :=
      congrArg Prod.snd handled.line
    have reached : s.stage.next value = Rpc.Stage.after (frames ++ [value]) := by
      rw [Rpc.Stage.after_concat, stage]
    refine ⟨⟨_, met⟩, ?_, handled.stage.trans reached, ?_⟩
    · dsimp only
      rw [input, closed]
      exact reads.concat ahead
    · cases exit : Rpc.isExit value with
      | true =>
        have leaves := handle_of_exit (s := { s with input := rest }) exit
        dsimp only
        rw [leaves]
        exact .exits (List.mem_append_right _ List.mem_cons_self) exit
      | false =>
        have ended := handled.ended
        rw [exit, if_neg Bool.false_ne_true] at ended
        dsimp only
        rw [ended, running]
        refine .lasts fun f member => ?_
        rcases List.mem_append.mp member with old | new
        · exact lasts f old
        · rw [List.mem_singleton.mp new]
          exact exit

theorem Abreast.hear (abreast : s.Abreast env d files bytes frames) (running : s.ended = none)
    (hears : s.closed = false) (more : Bytes) :
    (s.feed more).Abreast env d files (bytes ++ more) frames := by
  obtain ⟨⟨h, past⟩, reads, stage, ends⟩ := abreast
  have lasts := ends.lasts_of_none running
  rw [hears] at reads
  refine ⟨⟨h, past.of_same _ _ _⟩, ?_, stage, ?_⟩
  · rw [show (s.feed more).closed = false from hears]
    exact reads.append more
  · rw [show (s.feed more).ended = none from running]
    exact .lasts lasts

theorem Abreast.hangUp (abreast : s.Abreast env d files bytes frames) (running : s.ended = none) :
    Server.Abreast env d files bytes frames { s with closed := true } := by
  obtain ⟨⟨h, past⟩, reads, stage, ends⟩ := abreast
  have lasts := ends.lasts_of_none running
  refine ⟨⟨h, past.of_same _ _ _⟩, ?_, stage, ?_⟩
  · cases closed : s.closed with
    | true => exact closed ▸ reads
    | false =>
      rw [closed] at reads
      have more : Frame.Reads Frame.defaultLimit true (bytes ++ []) frames (s.input ++ []) :=
        reads.append []
      rw [List.append_nil, List.append_nil] at more
      exact more
  · rw [show Server.ended { s with closed := true } = none from running]
    exact .lasts lasts

theorem Abreast.meet (abreast : s.Abreast env d files bytes frames) (running : s.ended = none)
    {i : Incident} (other : ∀ value, i ≠ .frame value) :
    (s.meet i).Abreast env d files bytes frames := by
  obtain ⟨⟨h, past⟩, reads, stage, ends⟩ := abreast
  have lasts := ends.lasts_of_none running
  obtain ⟨stage', ended⟩ := meet_other past (by rw [running]; rfl) other
  have line := s.meet_line other
  refine ⟨⟨_, past.meet i⟩, ?_, stage'.trans stage, ?_⟩
  · rw [show (s.meet i).input = s.input from congrArg Prod.fst line,
      show (s.meet i).closed = s.closed from congrArg Prod.snd line]
    exact reads
  · rw [ended, running]
    exact .lasts lasts

theorem Abreast.face (abreast : s.Abreast env d files bytes frames) (o : Occasion) :
    (s.face o).Abreast env d files (bytes ++ s.bytesOf o) (frames ++ (s.reading? o).toList) := by
  cases ended : s.ended.isSome with
  | true =>
    simp only [Server.face, bytesOf, reading?, ended, if_true, Option.toList_none, List.append_nil]
    exact abreast
  | false =>
    have running : s.ended = none := Option.not_isSome_iff_eq_none.mp (Bool.eq_false_iff.mp ended)
    simp only [Server.face, bytesOf, reading?, ended, Bool.false_eq_true, if_false]
    cases o with
    | heard more =>
      dsimp only
      rw [Option.toList_none, List.append_nil]
      cases closed : s.closed with
      | true =>
        rw [if_pos rfl, if_pos rfl, List.append_nil]
        exact abreast
      | false => exact abreast.hear running closed more
    | hungUp =>
      dsimp only
      rw [Option.toList_none, List.append_nil, List.append_nil]
      exact abreast.hangUp running
    | read =>
      dsimp only
      rw [List.append_nil]
      exact abreast.read running
    | other i =>
      dsimp only
      rw [Option.toList_none, List.append_nil, List.append_nil]
      split
      · exact abreast
      · rename_i other
        refine abreast.meet running ?_
        rintro value rfl
        exact other rfl

theorem Abreast.play (abreast : s.Abreast env d files bytes frames) (occasions : List Occasion) :
    (s.play occasions).Abreast env d files (bytes ++ s.received occasions)
      (frames ++ s.readings occasions) := by
  -- the invariant moves with the bytes and frames of each occasion, at whatever server it begins
  induction occasions generalizing s bytes frames with
  | nil =>
    rw [received, readings, List.append_nil, List.append_nil]
    exact abreast
  | cons o rest ih =>
    rw [received, readings, ← List.append_assoc, ← List.append_assoc]
    exact ih (abreast.face o)

theorem abreast_new (env : Environment) (d : Defaults) (files : FileTree) (here : Path) :
    (new env d files here).Abreast env d files [] [] where
  past := ⟨[], past_new env d files here⟩
  reads := .done []
  stage := rfl
  ends := .lasts fun _ member => nomatch member

section Workspace

variable {site : Site}

theorem goes_of_next {g : Gist} {frame : Json} (next : s.gist.Next site frame g)
    (found : s.site? = some site) : ∃ site', g.site? = some site' ∧ site.Goes site' := by
  cases next with
  | same | leave => exact ⟨site, found, .stays⟩
  | spawn => exact ⟨_, rfl, .moved _ .stays⟩
  | refuse => exact ⟨_, rfl, .refused .stays⟩
  | look document => exact ⟨_, rfl, .looked document .stays⟩
  | shutdown => exact ⟨_, rfl, .shut .stays⟩

theorem meet_goes (found : s.site? = some site) (i : Incident) :
    ∃ site', (s.meet i).site? = some site' ∧ site.Goes site' := by
  have change := meet_change found i
  generalize gist : (s.meet i).gist = g at change
  rw [show (s.meet i).site? = g.site? from congrArg Gist.site? gist]
  cases change with
  | finished => exact ⟨site, found, .stays⟩
  | frame _ _ next => exact goes_of_next next found
  | turn _ turn =>
    cases turn with
    | rest | refuse => exact ⟨site, found, .stays⟩
    | move =>
      rw [site_eq found]
      exact ⟨_, rfl, .moved _ .stays⟩

theorem face_goes (found : s.site? = some site) (o : Occasion) :
    ∃ site', (s.face o).site? = some site' ∧ site.Goes site' := by
  unfold face
  split
  · exact ⟨site, found, .stays⟩
  rename_i lasts
  have running : s.ended = none := Option.not_isSome_iff_eq_none.mp lasts
  cases o with
  | heard bytes =>
    dsimp only
    split <;> exact ⟨site, found, .stays⟩
  | hungUp => exact ⟨site, found, .stays⟩
  | read =>
    dsimp only
    rw [serve_one running]
    cases s.ahead with
    | frame value rest =>
      have next := handle_next (s := { s with input := rest }) found value
      exact goes_of_next next found
    | _ => exact ⟨site, found, .stays⟩
  | other i =>
    dsimp only
    split
    · exact ⟨site, found, .stays⟩
    · exact meet_goes found i

/-- The workspace is opened once: where there is one, the session goes on in it. -/
theorem play_goes (found : s.site? = some site) (occasions : List Occasion) :
    ∃ site', (s.play occasions).site? = some site' ∧ site.Goes site' := by
  induction occasions generalizing s site with
  | nil => exact ⟨site, found, .stays⟩
  | cons o rest ih =>
    obtain ⟨between, found', goes⟩ := face_goes found o
    obtain ⟨site', found'', goes'⟩ := ih found'
    exact ⟨site', found'', goes.trans goes'⟩

theorem play_append (s : Server) (front behind : List Occasion) :
    s.play (front ++ behind) = (s.play front).play behind := List.foldl_append ..

end Workspace

section Ending

/-- How a session ends: it was left if the editor said so or the bytes have ended between frames,
and it failed if what is ahead cannot be read. -/
structure Returns (s : Server) (frames : List Json) : Prop where
  left : ∀ b, s.ended = some (.left b) ↔
    ((∃ f ∈ frames, Rpc.isExit f = true) ∨
        s.ended.isSome = true ∧ s.closed = true ∧ s.input = []) ∧
      (b = true ↔ Rpc.Stage.Shut frames)
  failed : ∀ e, s.ended = some (.failed e) ↔
    s.ended.isSome = true ∧ (∀ f ∈ frames, Rpc.isExit f = false) ∧ s.ahead = .failed e
  /-- The session lasts where it waits for bytes, and goes on behind a frame that is no exit. -/
  lasts : s.ended = none → ((s.serve 1).ended = none ↔
    s.ahead = .unfinished ∨ ∃ frame rest, s.ahead = .frame frame rest ∧ Rpc.isExit frame = false)
  /-- Where no more bytes will come, it ends. -/
  ends : s.closed = true → s.serveAll.ended.isSome = true

theorem shuttingDown_iff {h : Chronicle} (past : s.Past env d files h) :
    s.shuttingDown = true ↔ s.stage = .closing := by
  cases closed : s.site?.isNone with
  | true =>
    have none := (past.closed (Option.isNone_iff_eq_none.mp closed)).2.1
    rw [stage_of_none closed, none]
    exact ⟨Bool.false_ne_true.elim, Rpc.Stage.noConfusion⟩
  | false =>
    rw [stage_of_some closed]
    cases s.shuttingDown with
    | true => exact ⟨fun _ => rfl, fun _ => rfl⟩
    | false => exact ⟨Bool.false_ne_true.elim, Rpc.Stage.noConfusion⟩

/-- Where no byte will follow, reading comes to an end. -/
theorem Abreast.serveAll_ends (abreast : s.Abreast env d files bytes frames)
    (closed : s.closed = true) : s.serveAll.ended.isSome = true := by
  -- each frame shortens the input, so fuel beyond its length is never used up
  have enough (fuel : Nat) : ∀ {s : Server} {bytes : Bytes} {frames : List Json},
      s.Abreast env d files bytes frames → s.closed = true → s.input.length < fuel →
      (s.serve fuel).ended.isSome = true := by
    induction fuel with
    | zero => exact fun _ _ short => absurd short (Nat.not_lt_zero _)
    | succ fuel ih =>
      intro s bytes frames abreast closed short
      rw [serve]
      cases ended : s.ended.isSome with
      | true => exact ended
      | false =>
        have running : s.ended = none :=
          Option.not_isSome_iff_eq_none.mp (Bool.eq_false_iff.mp ended)
        have after := abreast.read running
        rw [serve_one running] at after
        rw [if_neg Bool.false_ne_true]
        have ahead : s.ahead = Frame.next Frame.defaultLimit s.closed s.input := rfl
        rw [← ahead]
        cases reads : s.ahead with
        | unfinished =>
          rw [ahead, closed] at reads
          exact absurd reads (Frame.next_of_closed _ _)
        | ended => rfl
        | failed e => rfl
        | frame value rest =>
          rw [reads] at after
          have line := (handle_handled (s := { s with input := rest })
            (fun none => by
              obtain ⟨h, past⟩ := abreast.past
              exact (past.closed none).2.1) value).line
          refine ih after ?_ ?_
          · exact (congrArg Prod.snd line).trans closed
          · have shorter := Frame.next_length (ahead.symm.trans reads)
            rw [show (Server.handle { s with input := rest } value).input = rest from
              congrArg Prod.fst line]
            omega
  exact enough _ abreast closed (Nat.lt_succ_self _)

theorem Abreast.returns (abreast : s.Abreast env d files bytes frames) : s.Returns frames := by
  have ends := abreast.ends
  obtain ⟨h, past⟩ := abreast.past
  have down : s.shuttingDown = true ↔ Rpc.Stage.Shut frames := by
    rw [shuttingDown_iff past, abreast.stage]
    exact Rpc.Stage.closing_iff frames
  have none_of {P : Prop} (stays : ∀ f ∈ frames, Rpc.isExit f = false)
      (leaves : ∃ f ∈ frames, Rpc.isExit f = true) : P := by
    obtain ⟨f, member, leaves⟩ := leaves
    cases (stays f member).symm.trans leaves
  refine ⟨fun b => ?_, fun e => ?_, fun running => ?_, abreast.serveAll_ends⟩
  · have said : some (Served.left s.shuttingDown) = some (.left b) ↔
        (b = true ↔ s.shuttingDown = true) := by
      cases b <;> cases s.shuttingDown <;> simp
    have empty : s.ahead = .ended ↔ s.closed = true ∧ s.input = [] := Frame.next_eq_ended
    rw [← down, ← empty]
    generalize s.ended = ended at ends
    cases ends with
    | lasts stays =>
      refine ⟨nofun, ?_⟩
      rintro ⟨leaves | ⟨ended, _⟩, _⟩
      · exact none_of stays leaves
      · cases ended
    | exits member leaves =>
      rw [said]
      exact (and_iff_right (.inl ⟨_, member, leaves⟩)).symm
    | hangsUp _ ahead =>
      rw [said]
      exact (and_iff_right (.inr ⟨rfl, ahead⟩)).symm
    | fails stays ahead =>
      refine ⟨nofun, ?_⟩
      rintro ⟨leaves | ⟨_, ahead'⟩, _⟩
      · exact none_of stays leaves
      · cases ahead.symm.trans ahead'
  · generalize s.ended = ended at ends
    cases ends with
    | lasts => exact ⟨nofun, fun ⟨ended, _⟩ => nomatch ended⟩
    | exits member leaves => exact ⟨nofun, fun ⟨_, stays, _⟩ => none_of stays ⟨_, member, leaves⟩⟩
    | hangsUp _ ahead => exact ⟨nofun, fun ⟨_, _, ahead'⟩ => nomatch ahead.symm.trans ahead'⟩
    | fails stays ahead =>
      constructor
      · intro same
        cases same
        exact ⟨rfl, stays, ahead⟩
      · rintro ⟨_, _, ahead'⟩
        cases ahead.symm.trans ahead'
        rfl
  · rw [serve_one running]
    cases ahead : s.ahead with
    | unfinished => exact ⟨fun _ => .inl rfl, fun _ => running⟩
    | ended => exact ⟨nofun, by rintro (same | ⟨_, _, same, _⟩) <;> cases same⟩
    | failed e => exact ⟨nofun, by rintro (same | ⟨_, _, same, _⟩) <;> cases same⟩
    | frame value rest =>
      have ended := (handle_handled (s := { s with input := rest })
        (fun closed => (past.closed closed).2.1) value).ended
      dsimp only
      rw [ended]
      cases exit : Rpc.isExit value with
      | true =>
        refine ⟨nofun, ?_⟩
        rintro (same | ⟨_, _, same, stays⟩) <;> cases same
        cases exit.symm.trans stays
      | false => exact ⟨fun _ => .inr ⟨value, rest, rfl, exit⟩, fun _ => running⟩

end Ending

theorem play_written (running : s.ended = none) (hears : s.closed = false) (empty : s.input = [])
    {frame : Json} (fits : Frame.Fits frame) (behind : Bytes) :
    s.play [.heard (Frame.write frame ++ behind), .read] =
      { s with input := behind }.handle frame := by
  have fed : s.face (.heard (Frame.write frame ++ behind)) =
      s.feed (Frame.write frame ++ behind) := by
    rw [face, running, Option.isSome_none, if_neg Bool.false_ne_true, hears]
    rfl
  have ahead : (s.feed (Frame.write frame ++ behind)).ahead = .frame frame behind := by
    rw [Server.ahead, feed, empty, List.nil_append]
    exact Frame.next_write _ fits behind
  have read : (s.feed (Frame.write frame ++ behind)).face .read =
      (s.feed (Frame.write frame ++ behind)).serve 1 := by
    rw [face, show (s.feed (Frame.write frame ++ behind)).ended = none from running]
    rfl
  rw [play, List.foldl_cons, fed, List.foldl_cons, read, List.foldl_nil,
    serve_one (by rw [feed, running]), ahead]
  rfl

/-- A session is at the stage that the frames read so far have brought it to, whatever bytes came
and however its tasks took their turns. There is one workspace at most. The next frame is met as
the stage has it, and the session ends with an exit, with the end of the bytes, or with bytes that
cannot be read. -/
theorem session_obeys_phases (env : Environment) (d : Defaults) (files : FileTree) (here : Path)
    (occasions : List Occasion) :
    let first := new env d files here
    let s := first.play occasions
    let frames := first.readings occasions
    Frame.Reads Frame.defaultLimit s.closed (first.received occasions) frames s.input ∧
    (s.stage = Rpc.Stage.after frames ∧
      (s.stage = .unopened ↔ ∀ f ∈ frames, Rpc.opens f = false) ∧
      (s.stage = .closing ↔ Rpc.Stage.Shut frames)) ∧
    (∀ front behind site, occasions = front ++ behind → (first.play front).site? = some site →
      ∃ site', s.site? = some site' ∧ site.Goes site') ∧
    (∀ frame rest, s.ended = none → s.ahead = .frame frame rest →
      Obeys { s with input := rest } (s.serve 1) frame) ∧
    s.Returns frames := by
  intro first s frames
  have abreast : s.Abreast env d files (first.received occasions) frames :=
    (abreast_new env d files here).play occasions
  obtain ⟨h, past⟩ := abreast.past
  have stage := abreast.stage
  refine ⟨abreast.reads, ⟨stage, ?_, ?_⟩, ?_, fun frame rest running ahead => ?_,
    abreast.returns⟩
  · rw [stage]
    exact Rpc.Stage.unopened_iff frames
  · rw [stage]
    exact Rpc.Stage.closing_iff frames
  · intro front behind site parts found
    have later := play_goes found behind
    rw [← play_append, ← parts] at later
    exact later
  · have read : s.serve 1 = { s with input := rest }.handle frame := by
      rw [serve_one running, ahead]
    rw [read]
    exact obeys (s := { s with input := rest }) (fun closed => (past.closed closed).2.1) frame

/-- The project is told twice. The second time is refused. -/
theorem second_opening_is_refused :
    let s := (new ⟨[]⟩ (.builtIn ⟨[]⟩) ⟨[], []⟩ ⟨[]⟩).play
      [.heard (Frame.writeAll [Rpc.initializeFrame, Rpc.initializeFrame]), .read]
    (s.serve 1).sent = s.sent ++ [Rpc.errorResponse (.nat 1) (-32600) "initialize sent twice"] := by
  intro s
  have fits : Frame.Fits Rpc.initializeFrame := by
    refine ⟨Json.plain_fields fun f member => ?_, by decide⟩
    simp only [List.mem_cons, List.not_mem_nil, or_false] at member
    rcases member with rfl | rfl | rfl
    exacts [.int (by omega) (by omega), .str _, .object fun _ member => nomatch member]
  let behind := Frame.write Rpc.initializeFrame ++ []
  let first := new ⟨[]⟩ (.builtIn ⟨[]⟩) ⟨[], []⟩ ⟨[]⟩
  have read : s = { first with input := behind }.handle Rpc.initializeFrame :=
    play_written (s := first) rfl rfl rfl fits behind
  have handled := handle_handled (s := { first with input := behind }) (fun _ => rfl)
    Rpc.initializeFrame
  rw [← read] at handled
  have ahead : s.ahead = .frame Rpc.initializeFrame [] := by
    rw [Server.ahead, show s.input = behind from congrArg Prod.fst handled.line]
    exact Frame.next_write _ fits []
  have opened : s.stage = .opened := handled.stage
  have obeys := (session_obeys_phases ⟨[]⟩ (.builtIn ⟨[]⟩) ⟨[], []⟩ ⟨[]⟩
    [.heard (Frame.writeAll [Rpc.initializeFrame, Rpc.initializeFrame]), .read]).2.2.2.1
    Rpc.initializeFrame [] handled.ended ahead
  have refused := obeys.refused (.nat 1) "initialize" (Json.object []) (-32600)
    "initialize sent twice" rfl (by
      rw [show Server.stage { s with input := [] } = .opened from opened]
      rfl)
  exact congrArg Server.sent refused

/-- A session that begins with parameters which make no sense is told so, and not that it is
unopened. -/
theorem bad_parameters_are_told :
    ¬∀ (frame id params : Json) (method : String),
      Incoming.ofFrame? frame = some (.request id method params) → Rpc.opens frame = false →
      ∃ text, ((new ⟨[]⟩ (.builtIn ⟨[]⟩) ⟨[], []⟩ ⟨[]⟩).play
        [.heard (Frame.write frame), .read]).sent = [Rpc.errorResponse id (-32002) text] := by
  intro refuses
  let frame := Json.object [("id", .nat 1), ("method", .str "initialize"), ("params", .nat 5)]
  obtain ⟨text, told⟩ := refuses frame (.nat 1) (.nat 5) "initialize" rfl (by decide)
  have fits : Frame.Fits frame := by
    refine ⟨Json.plain_fields fun f member => ?_, by decide⟩
    simp only [List.mem_cons, List.not_mem_nil, or_false] at member
    rcases member with rfl | rfl | rfl
    exacts [.int (by omega) (by omega), .str _, .int (by omega) (by omega)]
  have read := play_written (s := new ⟨[]⟩ (.builtIn ⟨[]⟩) ⟨[], []⟩ ⟨[]⟩) rfl rfl rfl fits []
  rw [List.append_nil] at read
  rw [read] at told
  have sent : (Server.handle { new ⟨[]⟩ (.builtIn ⟨[]⟩) ⟨[], []⟩ ⟨[]⟩ with input := [] }
      frame).sent = [Rpc.errorResponse (.nat 1) (-32602)
        "invalid type: integer `5`, expected struct InitializeParams"] := rfl
  rw [sent] at told
  have code := congrArg (fun fs => (fs.head?.bind (·.field? "error")).bind (·.field? "code")) told
  simp [Rpc.errorResponse, Json.field?_object, Json.int] at code

end Server

end LintBridge
