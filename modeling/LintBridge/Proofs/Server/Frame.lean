import LintBridge.Proofs.Workspace.Course
import LintBridge.Server.Handle

namespace LintBridge

/-- The settings in a frame that changes the configuration and makes sense. -/
def Rpc.settings? (env : Environment) (d : Defaults) (frame : Json) : Option Settings :=
  match Incoming.ofFrame? frame with
  | some (.notification "workspace/didChangeConfiguration" params) =>
    ((params.decode Rpc.settingsParam).bind (Settings.ofJson env d)).toOption
  | _ => none

/-- Whether the editor leaves with a frame. -/
def Rpc.isExit (frame : Json) : Bool :=
  match Incoming.ofFrame? frame with
  | some (.notification method _) => method = "exit"
  | _ => false

/-- The frame with which an editor tells the project. -/
def Rpc.initializeFrame : Json :=
  Json.object [("id", .nat 1), ("method", .str "initialize"), ("params", Json.object [])]

/-- The frame with which an editor asks for a shutdown. -/
def Rpc.shutdownFrame : Json := Json.object [("id", .nat 2), ("method", .str "shutdown")]

/-- The frame with which an editor changes the configuration. -/
def Rpc.configureFrame (settings : Json) : Json :=
  Json.object [("method", .str "workspace/didChangeConfiguration"),
    ("params", Json.object [("settings", settings)])]

/-- A server but for its dealings with the editor. -/
structure Gist where
  site? : Option Site
  jobs : List Job
  shuttingDown : Bool
  ended : Option Served
  env : Environment
  defaults : Defaults
  files : FileTree

/-- What a frame does to a server whose workspace is open. Once it shuts down it begins nothing but
what notifications ask for. -/
inductive Gist.Next (g : Gist) (site : Site) (frame : Json) : Gist → Prop
  | same : Next g site frame g
  | leave : Rpc.isExit frame = true →
      Next g site frame { g with ended := some (.left g.shuttingDown) }
  | spawn {e : Errand} {job : Job} :
      (g.shuttingDown = true → (∃ document t, e = .analyzeFile document t) ∨ ∃ s, e = .start s) →
      (∀ s, e = .start s → Rpc.settings? g.env g.defaults frame = some s) →
      Next g site frame
        { g with site? := some (site.move (.spawn e)), jobs := g.jobs ++ [job] }
  | refuse {job : Job} : g.shuttingDown = false →
      Next g site frame
        { g with
          site? := some { site with tasks := site.tasks ++ [none] }, jobs := g.jobs ++ [job] }
  | look (document : String) :
      Next g site frame
        { g with site? := some { site with workspace := site.workspace.lookAt document } }
  | shutdown : g.shuttingDown = false →
      Next g site frame
        { g with
          shuttingDown := true
          site? := some { site with workspace := site.workspace.shutdown } }

/-- What a frame does to a server that has no workspace: at most it opens one. -/
inductive Gist.First (g : Gist) : Gist → Prop
  | same : First g g
  | leave : First g { g with ended := some (.left g.shuttingDown) }
  | opened (project : Path) :
      First g { g with site? := some (.new (.new project g.defaults g.files)) }

namespace Server

/-- A server but for its dealings with the editor. -/
def gist (s : Server) : Gist :=
  ⟨s.site?, s.jobs, s.shuttingDown, s.ended, s.env, s.defaults, s.files⟩

theorem tell_gist (task : Option Nat) (s : Server) (e : Event) : (tell task s e).gist = s.gist := by
  cases e with
  | progress e => cases e <;> rfl
  | _ => rfl

theorem withSite_gist (s : Server) (task : Option Nat) (next : Site) :
    (s.withSite task next).gist = { s.gist with site? := some next } := by
  have told (events : List Event) (s : Server) : (events.foldl (tell task) s).gist = s.gist := by
    induction events generalizing s with
    | nil => rfl
    | cons e rest ih => rw [List.foldl_cons, ih, tell_gist]
  exact told _ _

/-- An answered request changes nothing but its job. -/
theorem reply_gist (s : Server) (n : Nat) :
    (s.reply n).gist = s.gist ∨
      (s.reply n).gist = { s.gist with jobs := s.jobs.set n .done } ∧
        (s.site.outcome? n).isSome := by
  unfold reply
  split
  case h_1 outcome _ | h_2 outcome _ => exact .inr ⟨rfl, by rw [outcome]; rfl⟩
  case h_3 => exact .inl rfl

/-- What carrying out a move of the workspace does to a server. -/
theorem move_gist (s : Server) (m : Move) :
    ∃ jobs, (s.move m).gist = { s.gist with site? := some (s.site.move m), jobs := jobs } ∧
      (jobs = s.jobs ∨ ∃ n, taskOf m = some n ∧ jobs = s.jobs.set n .done ∧
        ((s.site.move m).outcome? n).isSome) := by
  have moved := s.withSite_gist (taskOf m) (s.site.move m)
  have site : (s.withSite (taskOf m) (s.site.move m)).site = s.site.move m := by
    rw [Server.site, show (s.withSite (taskOf m) (s.site.move m)).site? = _ from
      congrArg Gist.site? moved]
    rfl
  have jobs : (s.withSite (taskOf m) (s.site.move m)).jobs = s.jobs := congrArg Gist.jobs moved
  unfold move
  dsimp only
  cases task : taskOf m with
  | none =>
    rw [task] at moved
    exact ⟨s.jobs, moved, .inl rfl⟩
  | some n =>
    rw [task] at moved site jobs
    dsimp only
    rcases reply_gist (s.withSite (some n) (s.site.move m)) n with same | ⟨replied, outcome⟩
    · exact ⟨s.jobs, same.trans moved, .inl rfl⟩
    · rw [site] at outcome
      refine ⟨s.jobs.set n .done, ?_, .inr ⟨n, rfl, rfl, outcome⟩⟩
      rw [replied, moved, jobs]

theorem site_eq {s : Server} {site : Site} (found : s.site? = some site) : s.site = site := by
  rw [Server.site, found]
  rfl

variable {s : Server} {site : Site} {frame : Json}

theorem spawn_next (found : s.site? = some site) {e : Errand} (job : Job)
    (allowed : s.shuttingDown = true →
      (∃ document t, e = .analyzeFile document t) ∨ ∃ s, e = .start s)
    (settings : ∀ st, e = .start st → Rpc.settings? s.env s.defaults frame = some st) :
    s.gist.Next site frame (s.spawn e job).gist := by
  rw [← site_eq found]
  exact .spawn allowed settings

theorem spawnFor_next (found : s.site? = some site) (running : s.shuttingDown = false)
    (id params : Json) {α : Type} (read : Decoder α) (errand : α → Errand)
    (other : ∀ a st, errand a ≠ .start st) :
    s.gist.Next site frame (s.spawnFor id params read errand).gist := by
  unfold spawnFor
  split
  · refine spawn_next found _ (fun down => ?_) fun st start => absurd start (other _ st)
    rw [running] at down
    cases down
  · rw [← site_eq found]
    exact .refuse running

/-- What a request does to a server whose workspace is open. -/
theorem request_next (found : s.site? = some site) (id : Json) (method : String) (params : Json) :
    s.gist.Next site frame (s.request id method params).gist := by
  unfold request
  split
  · unfold beginSession
    rw [if_pos (by rw [found]; rfl)]
    exact .same
  rw [if_neg (by rw [found]; simp)]
  split
  · exact .same
  rename_i running
  rw [Bool.not_eq_true] at running
  have begin_ {e : Errand} {job : Job} (other : ∀ st, e ≠ .start st) :
      s.gist.Next site frame (s.spawn e job).gist := by
    refine spawn_next found job (fun down => ?_) fun st start => absurd start (other st)
    rw [running] at down
    cases down
  split
  · have shut := withSite_gist { s with shuttingDown := true } none
      { s.site with workspace := s.site.workspace.shutdown }
    rw [site_eq found] at shut ⊢
    exact shut ▸ .shutdown running
  · exact begin_ fun st start => by cases start
  · exact begin_ fun st start => by cases start
  · exact begin_ fun st start => by cases start
  · exact spawnFor_next found running id params _ _ fun a st start => by cases start
  · refine spawnFor_next found running id params _ _ fun a st start => ?_
    rcases a with ⟨_ | _, _ | path⟩ <;> cases start
  · exact spawnFor_next found running id params _ _ fun a st start => by cases start
  · exact spawnFor_next found running id params _ _ fun a st start => by cases start
  · exact .same

/-- Only a change of the configuration that makes sense begins a start. -/
theorem configure_next (found : s.site? = some site) {params : Json}
    (message : Incoming.ofFrame? frame =
      some (.notification "workspace/didChangeConfiguration" params)) :
    s.gist.Next site frame (s.configure params).gist := by
  unfold configure
  split
  · rename_i settings read
    refine spawn_next found _ (fun _ => .inr ⟨settings, rfl⟩) fun st start => ?_
    cases start
    simp only [Rpc.settings?, message, read]
    rfl
  · exact .same

theorem analyzeDocument_next (found : s.site? = some site) (params : Json) (t : Trigger) :
    s.gist.Next site frame (s.analyzeDocument params t).gist := by
  unfold analyzeDocument
  split
  · exact spawn_next found _ (fun _ => .inl ⟨_, t, rfl⟩) fun st start => by cases start
  · exact .same

/-- What a notification does to a server whose workspace is open. -/
theorem notified_next (found : s.site? = some site) {method : String} {params : Json}
    (message : Incoming.ofFrame? frame = some (.notification method params)) :
    s.gist.Next site frame (s.notified method params).gist := by
  unfold notified
  split
  · rename_i exit
    refine .leave ?_
    rw [Rpc.isExit, message]
    exact decide_eq_true exit
  rw [if_neg (by rw [found]; simp)]
  split
  · exact configure_next found message
  · exact analyzeDocument_next found params _
  · exact analyzeDocument_next found params _
  · exact analyzeDocument_next found params _
  · unfold look
    split
    · rename_i document _
      rw [withSite_gist, site_eq found]
      exact .look document
    · exact .same
  · exact .same

/-- What a frame does to a server whose workspace is open. -/
theorem handle_next (found : s.site? = some site) (frame : Json) :
    s.gist.Next site frame (s.handle frame).gist := by
  unfold handle
  split
  · exact .same
  · exact .same
  · exact request_next found _ _ _
  · rename_i message
    exact notified_next found message

/-- A change of the configuration that makes sense begins a start, whatever the server was told
before. -/
theorem handle_settings (found : s.site? = some site) {st : Settings}
    (settings : Rpc.settings? s.env s.defaults frame = some st) :
    s.handle frame = s.spawn (.start st) .silent := by
  unfold Rpc.settings? at settings
  split at settings
  · rename_i params message
    have read : (params.decode Rpc.settingsParam).bind (Settings.ofJson s.env s.defaults) =
        .ok st := by
      cases read : (params.decode Rpc.settingsParam).bind (Settings.ofJson s.env s.defaults) with
      | ok st' =>
        rw [read] at settings
        exact congrArg Except.ok (Option.some.inj settings)
      | error e =>
        rw [read] at settings
        cases settings
    unfold handle notified configure
    simp only [message]
    rw [if_neg (by decide), if_neg (by rw [found]; simp), read]
  · cases settings

/-- With some frames the editor leaves. -/
theorem handle_exit (exit : Rpc.isExit frame = true) : (s.handle frame).ended.isSome = true := by
  unfold Rpc.isExit at exit
  split at exit
  · rename_i method params message
    unfold handle notified
    simp only [message]
    rw [if_pos (of_decide_eq_true exit)]
    rfl
  · cases exit

/-- What a frame does to a server that has no workspace. -/
theorem handle_first (closed : s.site? = none) (frame : Json) :
    s.gist.First (s.handle frame).gist := by
  have unopened : s.site?.isNone = true := by rw [closed]; rfl
  unfold handle
  split
  · exact .same
  · exact .same
  · rename_i id method params _
    unfold request
    by_cases first : method = "initialize"
    · rw [if_pos first]
      unfold beginSession
      rw [closed, Option.isSome_none, if_neg Bool.false_ne_true]
      split
      · exact .same
      · exact .opened _
    · rw [if_neg first, if_pos unopened]
      exact .same
  · rename_i method params _
    unfold notified
    by_cases last : method = "exit"
    · rw [if_pos last]
      exact .leave
    · rw [if_neg last, if_pos unopened]
      exact .same

end Server

end LintBridge
