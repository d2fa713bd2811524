import LintBridge.Proofs.Install.Steps

namespace LintBridge

namespace Download

/-- Where a chase goes on behind some redirects, if they all lead on: what has been sent, and the
URL that is asked for next. -/
def place (send : Transport) (url : Url) : Nat → Option (List HttpRequest × Url)
  | 0 => some ([], url)
  | k + 1 =>
    match place send url k with
    | none => none
    | some (sent, current) =>
      match send sent current with
      | (_, none) => none
      | (more, some reply) =>
        if HttpReply.isRedirect reply.status then
          (reply.location? current).map fun next => (sent ++ more, next)
        else none

/-- How a chase ends behind some redirects, and what has been sent by then. -/
inductive Ends (send : Transport) (url : Url) (k : Nat) :
    List HttpRequest → Except InstallError (Url × HttpReply) → Prop
  | found {sent more : List HttpRequest} {current : Url} {reply : HttpReply} :
      place send url k = some (sent, current) → send sent current = (more, some reply) →
      reply.status = 200 → Ends send url k (sent ++ more) (.ok (current, reply))
  | refused {sent more : List HttpRequest} {current : Url} {reply : HttpReply} :
      place send url k = some (sent, current) → send sent current = (more, some reply) →
      HttpReply.isRedirect reply.status = false → reply.status ≠ 200 →
      Ends send url k (sent ++ more) (.error (.httpStatus current.text reply.status))
  | lost {sent more : List HttpRequest} {current : Url} {reply : HttpReply} :
      place send url k = some (sent, current) → send sent current = (more, some reply) →
      HttpReply.isRedirect reply.status = true → k < maxRedirects →
      reply.location? current = none →
      Ends send url k (sent ++ more) (.error (.missingLocation current.text))
  | tired {sent more : List HttpRequest} {current : Url} {reply : HttpReply} :
      place send url k = some (sent, current) → send sent current = (more, some reply) →
      HttpReply.isRedirect reply.status = true → k = maxRedirects →
      Ends send url k (sent ++ more) (.error (.redirectLimit url.text maxRedirects))
  | unanswered {sent more : List HttpRequest} {current : Url} :
      place send url k = some (sent, current) → send sent current = (more, none) →
      Ends send url k (sent ++ more) (.error (.network current.text))

section Chase

variable {send : Transport} {url current next : Url} {sent more : List HttpRequest}
variable {reply : HttpReply} {k left : Nat} {answer : Except InstallError (Url × HttpReply)}

theorem place_succ (at_k : place send url k = some (sent, current))
    (asked : send sent current = (more, some reply))
    (redirect : HttpReply.isRedirect reply.status = true)
    (leads : reply.location? current = some next) :
    place send url (k + 1) = some (sent ++ more, next) := by
  simp only [place, at_k, asked, if_pos redirect, leads, Option.map_some]

/-- A place behind a redirect is one that the redirect leads to. -/
theorem of_place_succ (at_succ : place send url (k + 1) = some (sent, next)) :
    ∃ before more current reply, place send url k = some (before, current) ∧
      send before current = (more, some reply) ∧ HttpReply.isRedirect reply.status = true ∧
      reply.location? current = some next ∧ sent = before ++ more := by
  rw [place] at at_succ
  split at at_succ
  · cases at_succ
  rename_i before current at_k
  split at at_succ
  · cases at_succ
  rename_i more reply asked
  split at at_succ
  · rename_i redirect
    obtain ⟨next, leads, same⟩ := Option.map_eq_some_iff.mp at_succ
    cases same
    exact ⟨before, more, current, reply, at_k, asked, redirect, leads, rfl⟩
  · cases at_succ

/-- A redirect that can be used costs one of those that are left. -/
theorem chase_redirect (asked : send sent current = (more, some reply))
    (redirect : HttpReply.isRedirect reply.status = true)
    (leads : reply.location? current = some next) :
    chase send url (left + 1) sent current = chase send url left (sent ++ more) next := by
  rw [chase, asked]
  simp only [if_pos redirect, leads]

/-- From each place the chase goes on with as many redirects as are left. -/
theorem chase_of_place (at_k : place send url k = some (sent, current))
    (count : k + left = maxRedirects) :
    chase send url maxRedirects [] url = chase send url left sent current := by
  induction k generalizing sent current left with
  | zero =>
    cases at_k
    rw [← count, Nat.zero_add]
  | succ k ih =>
    obtain ⟨before, more, previous, reply, at_previous, asked, redirect, leads, rfl⟩ :=
      of_place_succ at_k
    have count' : k + (left + 1) = maxRedirects := by omega
    rw [ih at_previous count', chase_redirect asked redirect leads]

/-- What a chase comes to where it ends. -/
theorem Ends.chase_eq (ends : Ends send url k sent answer) (within : k ≤ maxRedirects) :
    chase send url maxRedirects [] url = (sent, answer) := by
  obtain ⟨left, count⟩ := Nat.exists_eq_add_of_le within
  cases ends with
  | found at_k asked good =>
    rw [chase_of_place at_k count.symm, chase, asked]
    simp [good, HttpReply.isRedirect]
  | refused at_k asked final bad =>
    rw [chase_of_place at_k count.symm, chase, asked]
    simp [final, bad]
  | lost at_k asked redirect further none =>
    obtain ⟨left, rfl⟩ : ∃ n, left = n + 1 := Nat.exists_eq_add_one.mpr (by omega)
    rw [chase_of_place at_k count.symm, chase, asked]
    simp [redirect, none]
  | tired at_k asked redirect last =>
    obtain rfl : left = 0 := by omega
    rw [chase_of_place at_k count.symm, chase, asked]
    simp [redirect]
  | unanswered at_k asked => rw [chase_of_place at_k count.symm, chase, asked]

/-- At each place the chase ends or is led on. -/
theorem ends_or_led (at_k : place send url k = some (sent, current)) (within : k ≤ maxRedirects) :
    (∃ sent answer, Ends send url k sent answer) ∨
      k < maxRedirects ∧ ∃ sent next, place send url (k + 1) = some (sent, next) := by
  rcases asked : send sent current with ⟨more, _ | reply⟩
  · exact .inl ⟨_, _, .unanswered at_k asked⟩
  cases redirect : HttpReply.isRedirect reply.status with
  | false =>
    by_cases good : reply.status = 200
    · exact .inl ⟨_, _, .found at_k asked good⟩
    · exact .inl ⟨_, _, .refused at_k asked redirect good⟩
  | true =>
    obtain further | last := Nat.lt_or_eq_of_le within
    · cases leads : reply.location? current with
      | none => exact .inl ⟨_, _, .lost at_k asked redirect further leads⟩
      | some next => exact .inr ⟨further, _, _, place_succ at_k asked redirect leads⟩
    · exact .inl ⟨_, _, .tired at_k asked redirect last⟩

/-- Every chase ends, with no more redirects than are followed. -/
theorem exists_ends (send : Transport) (url : Url) :
    ∃ k ≤ maxRedirects, ∃ sent answer, Ends send url k sent answer := by
  -- otherwise there is a place behind every number of redirects
  by_contra endless
  have led : ∀ k ≤ maxRedirects + 1, ∃ sent current, place send url k = some (sent, current) := by
    intro k within
    induction k with
    | zero => exact ⟨_, _, rfl⟩
    | succ k ih =>
      obtain ⟨sent, current, at_k⟩ := ih (by omega)
      obtain ends | ⟨_, led⟩ := ends_or_led at_k (by omega)
      · exact absurd ⟨k, by omega, ends⟩ endless
      · exact led
  obtain ⟨sent, current, at_last⟩ := led maxRedirects (Nat.le_succ _)
  obtain ends | ⟨further, _⟩ := ends_or_led at_last (Nat.le_refl _)
  · exact endless ⟨_, Nat.le_refl _, ends⟩
  · exact Nat.lt_irrefl _ further

/-- Each URL is asked for with one request at most. -/
def Single (send : Transport) : Prop := ∀ sent current, (send sent current).1.length ≤ 1

theorem Single.length_append (single : Single send) {reply : Option HttpReply}
    (asked : send sent current = (more, reply)) (few : sent.length ≤ k) :
    (sent ++ more).length ≤ k + 1 := by
  have last : more.length ≤ 1 := by
    have one := single sent current
    rwa [asked] at one
  rw [List.length_append]
  omega

/-- A place is reached with no more requests than redirects. -/
theorem Single.length_place (single : Single send)
    (at_k : place send url k = some (sent, current)) : sent.length ≤ k := by
  induction k generalizing sent current with
  | zero =>
    cases at_k
    exact Nat.le_refl _
  | succ k ih =>
    obtain ⟨before, more, previous, reply, at_previous, asked, _, _, rfl⟩ := of_place_succ at_k
    exact single.length_append asked (ih at_previous)

theorem Single.length_ends (single : Single send) (ends : Ends send url k sent answer) :
    sent.length ≤ k + 1 := by
  cases ends with
  | found at_k asked | refused at_k asked | lost at_k asked | tired at_k asked
  | unanswered at_k asked => exact single.length_append asked (single.length_place at_k)

/-- A client asks a server once, or its proxy. -/
theorem single_send (client : HttpClient) (server : HttpServer) : Single (client.send server) := by
  intro sent current
  rw [HttpClient.send]
  cases client.proxy with
  | none =>
    dsimp only
    split_ifs <;> simp
  | some p =>
    dsimp only
    split_ifs <;> simp

theorem single_network {server : HttpServer} {options : DownloadOptions}
    (reached : server.network options = some send) : Single send := by
  obtain ⟨client, _, rfl⟩ := Option.map_eq_some_iff.mp reached
  exact single_send client server

end Chase

section Keep

/-- The directories above a file are there or can be made, and the file can be opened then. -/
def Creatable (t : FileTree) (dest : Path) : Prop :=
  ∃ t₁ t₂, (match dest.parent? with
      | none => (t, none)
      | some parent => t.createAll parent) = (t₁, none) ∧ t₁.write dest [] = .ok t₂

variable {t : FileTree} {dest : Path}

/-- A file that can be made takes the body of a reply. -/
theorem keep_of_creatable (creatable : Creatable t dest) (url : Url) (reply : HttpReply) :
    ∃ t', t'.read dest = .ok reply.body ∧ keep t dest url reply =
      (t', if reply.whole then .ok reply.body.length else .error (.network url.text)) := by
  obtain ⟨t₁, t₂, made, opened⟩ := creatable
  obtain ⟨t', wrote⟩ := FileTree.write_any opened reply.body
  refine ⟨t', FileTree.read_write wrote, ?_⟩
  have kept : keepIn t₁ dest url reply =
      (t', if reply.whole then .ok reply.body.length else .error (.network url.text)) := by
    simp only [keepIn, opened, wrote]
  rw [keep_eq]
  cases above : dest.parent? with
  | none =>
    rw [above] at made
    cases made
    exact kept
  | some parent =>
    rw [above] at made
    dsimp only at made ⊢
    rw [made]
    exact kept

/-- Where a file cannot be made the reason is told. -/
theorem keep_of_not_creatable (barred : ¬Creatable t dest) (url : Url) (reply : HttpReply) :
    ∃ t' p fault, keep t dest url reply =
      (t', .error (Unpack.failure "creating" p (Fault.message fault))) := by
  have refused {t₁ : FileTree} (made : (match dest.parent? with
      | none => (t, none)
      | some parent => t.createAll parent) = (t₁, none)) :
      ∃ t' p fault, keepIn t₁ dest url reply =
        (t', .error (Unpack.failure "creating" p (Fault.message fault))) := by
    cases opened : t₁.write dest [] with
    | error fault => exact ⟨t₁, dest, fault, by rw [keepIn, opened]⟩
    | ok t₂ => exact absurd ⟨t₁, t₂, made, opened⟩ barred
  rw [keep_eq]
  cases above : dest.parent? with
  | none => exact refused (by rw [above])
  | some parent =>
    dsimp only
    rcases made : t.createAll parent with ⟨t₁, _ | fault⟩
    · refine refused ?_
      rw [above]
      exact made
    · exact ⟨t₁, parent, fault, rfl⟩

end Keep

end Download

/-- A download that is not cancelled comes to what the chase comes to. -/
theorem download_eq {options : DownloadOptions} {network : Network} {send : Transport}
    (reached : network options = some send) (t : FileTree) (url : Url) (dest : Path) :
    download options network false t url dest =
      Download.deliver t dest (Download.chase send url Download.maxRedirects [] url) := by
  rw [download, reached]
  rfl

/-- A download asks at most eleven times and comes to what the end of its chain of redirects says.
The body behind a reply with status 200 is kept where the file can be made, and nothing is made
before such a reply has come. -/
theorem Download.comes_to_the_end_of_its_chain (url : Url) (t : FileTree) (dest : Path) :
    (∀ options (network : Network) send, network options = some send →
      download options network false t url dest =
        deliver t dest (chase send url maxRedirects [] url)) ∧
    (∀ options (server : HttpServer) send, server.network options = some send → Single send) ∧
    ∀ send, Single send →
      (∃ k ≤ maxRedirects, ∃ sent answer, Ends send url k sent answer) ∧
      ∀ k ≤ maxRedirects, ∀ sent answer, Ends send url k sent answer →
        sent.length ≤ 11 ∧
        (∀ e, answer = .error e →
          deliver t dest (chase send url maxRedirects [] url) = (sent, t, .error e)) ∧
        ∀ current reply, answer = .ok (current, reply) → ∃ t' result,
          deliver t dest (chase send url maxRedirects [] url) = (sent, t', result) ∧
          (Creatable t dest → t'.read dest = .ok reply.body ∧
            result = if reply.whole then .ok reply.body.length
              else .error (.network current.text)) ∧
          (¬Creatable t dest → ∃ p fault,
            result = .error (Unpack.failure "creating" p (Fault.message fault))) := by
  refine ⟨fun options network send reached => download_eq reached t url dest,
    fun options server send reached => single_network reached, fun send single =>
    ⟨exists_ends send url, fun k within sent answer ends => ?_⟩⟩
  rw [ends.chase_eq within]
  refine ⟨Nat.le_trans (single.length_ends ends) (Nat.succ_le_succ within), ?_, ?_⟩
  · rintro e rfl
    rfl
  · rintro current reply rfl
    refine ⟨(keep t dest current reply).1, (keep t dest current reply).2, rfl, ?_, ?_⟩
    · intro creatable
      obtain ⟨t', value, kept⟩ := keep_of_creatable creatable current reply
      rw [kept]
      exact ⟨value, rfl⟩
    · intro barred
      obtain ⟨t', p, fault, kept⟩ := keep_of_not_creatable barred current reply
      rw [kept]
      exact ⟨p, fault, rfl⟩

/-- The reply is kept of a server that sends on from `/x` to `/y`. -/
theorem Download.second_place_is_kept :
    let at_path (path : String) : Url :=
      ⟨"http", some ⟨"", none, some (.domain "r.test"), none⟩, false, path, none, none⟩
    let send : Transport := fun sent u => ([⟨"GET", u.path⟩], some
      (if sent.isEmpty then ⟨302, [("Location", utf8 "/y")], [], true⟩
        else ⟨200, [], utf8 "abc", true⟩))
    let chased := chase send (at_path "/x") maxRedirects [] (at_path "/x")
    ∃ t', deliver ⟨[], []⟩ (.ofText "/a") chased =
      ([⟨"GET", "/x"⟩, ⟨"GET", "/y"⟩], t', .ok 3) ∧ t'.read (.ofText "/a") = .ok (utf8 "abc") := by
  intro at_path send chased
  have single : Single send := fun _ _ => Nat.le_refl 1
  have led : place send (at_path "/x") 1 = some ([⟨"GET", "/x"⟩], at_path "/y") := by
    decide +kernel
  have ends := Ends.found led rfl rfl
  have creatable : Creatable ⟨[], []⟩ (.ofText "/a") := ⟨⟨[], []⟩, _, rfl, rfl⟩
  obtain ⟨_, _, all⟩ := comes_to_the_end_of_its_chain (at_path "/x") ⟨[], []⟩ (.ofText "/a")
  obtain ⟨_, _, kept⟩ := (all send single).2 1 (by decide) _ _ ends
  obtain ⟨t', result, comes, made, _⟩ := kept _ _ rfl
  obtain ⟨value, rfl⟩ := made creatable
  exact ⟨t', comes, value⟩

/-- A directory in the place of the file is in the way of a reply with status 200. -/
theorem Download.directory_in_the_way :
    let u : Url := ⟨"http", some ⟨"", none, some (.domain "r.test"), none⟩, false, "/x", none, none⟩
    let reply : HttpReply := ⟨200, [], utf8 "abc", true⟩
    let server : HttpServer := ⟨"r.test", 80, fun _ _ => some reply⟩
    let t : FileTree := ⟨[([utf8 "d"], .directory)], []⟩
    Ends (HttpClient.send ⟨none⟩ server) u 0 [⟨"GET", "/x"⟩] (.ok (u, reply)) ∧
      download ⟨none, true⟩ server.network false t u (.ofText "/d") = ([⟨"GET", "/x"⟩], t,
        .error (.io "creating /d" "Is a directory (os error 21)")) := by
  intro u reply server t
  have asked : HttpClient.send ⟨none⟩ server [] u = ([⟨"GET", "/x"⟩], some reply) := by
    decide +kernel
  have start : Download.place (HttpClient.send ⟨none⟩ server) u 0 = some ([], u) := rfl
  exact ⟨.found start asked rfl, rfl⟩

end LintBridge
