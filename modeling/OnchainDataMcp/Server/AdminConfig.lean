import OnchainDataMcp.Config.Edit
import OnchainDataMcp.Lib.Mutex

/-!
# The configuration in force

The dashboard edits the configuration while the server runs: it writes the files and swaps the
routing table, and SIGHUP or the dashboard reads the files again.  One lock is held for each of
these; the process may be killed anywhere, and starts from the files again.

* `apply` / `reload` — the two, action by action;
* `serve` — each of them at once;
* `Accepted`, `InSync` — the configuration in force is one that was accepted, or that of the files;
* `configuration_in_force` — whatever the requests, their interleaving and their faults.
-/

namespace OnchainDataMcp.Server.AdminConfig

open OnchainDataMcp.Config OnchainDataMcp.Lib OnchainDataMcp.Lib.Mutex OnchainDataMcp.Lib.Runs

structure State where
  files : Files
  /-- The configuration in the routing table. -/
  table : Loaded
  up : Bool

abbrev Answer := Except (List Issue) (List Issue)

/-! ### Requests -/

/-- `self.router().swap(..)` -/
def install (next : Loaded) (s : State) : State := { s with table := next }

inductive Request
  | apply (faults : Faults) (edits : List Edit)
  /-- The operating system may refuse to read a file, with a message. -/
  | reload (unread : EditTarget → Option String)

section Requests

variable (L : Loader)

/-- `ConfigLoader::load`. -/
def loadFiles (unread : EditTarget → Option String) (files : Files) :
    Except (List Issue) Loaded :=
  match unread .config, unread .secrets with
  | some m, _ => .error [.error (L.display .config) m]
  | none, some m => .error [.error (L.display .secrets) m]
  | none, none => L.load files

/-- Write to the files, and go on if that succeeds. -/
def writing (m : Fallible Files (List Issue) Unit) (k : Section State Answer) :
    Section State Answer :=
  .act (fun s => { s with files := (m.exec s.files).2 }) fun s =>
    match (m.exec s.files).1 with
    | .error issues => .ret (.error issues)
    | .ok _ => k

/-- Swap the table, and answer with the warnings. -/
def installing (next : Loaded) : Section State Answer :=
  .act (install next) fun _ => .ret (.ok next.warnings)

/-- Write what was planned, and install it. -/
def writePlan (faults : Faults) (edits : List Edit) :
    Except (List Issue) (Loaded × String × String) → Section State Answer
  | .error issues => .ret (.error issues)
  | .ok (next, config, secrets) =>
    writing (writeTarget faults edits .config config none "config.toml")
      (writing (writeTarget faults edits .secrets secrets (some secretsMode) "secrets.toml")
        (installing next))

/-- Validate, write atomically and hot-swap the routing table. -/
def apply (faults : Faults) (edits : List Edit) : Section State Answer :=
  .act id fun s =>
    let current := s.table
    .act id fun s => writePlan faults edits (planEdits L faults current edits s.files)

def installLoaded : Except (List Issue) Loaded → Section State Answer
  | .error issues => .ret (.error issues)
  | .ok next => installing next

/-- Re-read the config files. -/
def reload (unread : EditTarget → Option String) : Section State Answer :=
  .act id fun s => installLoaded (loadFiles L unread s.files)

def Request.body : Request → Section State Answer
  | .apply faults edits => AdminConfig.apply L faults edits
  | .reload unread => AdminConfig.reload L unread

/-- The answer to a request by itself, and what it leaves. -/
def serve (s : State) : Request → Answer × State
  | .apply faults edits =>
    match (applyEdits L faults s.table edits).exec s.files with
    | (.error issues, files) => (.error issues, { s with files })
    | (.ok next, files) => (.ok next.warnings, { s with files, table := next })
  | .reload unread =>
    match loadFiles L unread s.files with
    | .error issues => (.error issues, s)
    | .ok next => (.ok next.warnings, { s with table := next })

/-- The process starts, from the files. -/
def restart (s : State) : State :=
  match L.load s.files with
  | .ok table => { s with table, up := true }
  | .error _ => { s with up := false }

/-- `validate_edits`: nothing is written. -/
def validate (faults : Faults) (edits : List Edit) (s : State) : Answer :=
  (planEdits L faults s.table edits s.files).map fun plan => plan.1.warnings

end Requests

variable {L : Loader} {s : State}

theorem run_writing (m : Fallible Files (List Issue) Unit) (k : Section State Answer) :
    (writing m k).run s =
      match m.exec s.files with
      | (.error issues, files) => (.error issues, { s with files })
      | (.ok _, files) => k.run { s with files } := by
  rw [writing, Section.run_act]
  rcases hexec : m.exec s.files with ⟨_ | _, files⟩ <;> rfl

/-- **Action by action is at once.** -/
theorem run_body (r : Request) : (r.body L).run s = serve L s r := by
  cases r with
  | apply faults edits =>
    show (writePlan faults edits (planEdits L faults s.table edits s.files)).run s = _
    rw [serve, applyEdits]
    cases hplan : planEdits L faults s.table edits s.files with
    | error issues =>
      rw [Fallible.exec_look_stopped hplan]
      rfl
    | ok plan =>
      rw [Fallible.exec_look_bind hplan, Fallible.exec_bind, writePlan, run_writing]
      rcases (writeTarget faults edits .config plan.2.1 none "config.toml").exec s.files with
        ⟨_ | _, files⟩
      · rfl
      · rw [Fallible.exec_bind]
        show (writing _ _).run _ = _
        rw [run_writing]
        rcases (writeTarget faults edits .secrets plan.2.2 (some secretsMode)
          "secrets.toml").exec files with ⟨_ | _, files⟩ <;> rfl
  | reload unread =>
    show (installLoaded (loadFiles L unread s.files)).run s = _
    rw [serve]
    cases loadFiles L unread s.files <;> rfl

/-! ### What is in force -/

/-- The configuration in force is one that the loader has accepted. -/
def Accepted (L : Loader) (s : State) : Prop :=
  ∃ config secrets, L.loadTexts config secrets = .ok s.table

/-- The process runs with the configuration of the files. -/
def InSync (L : Loader) (s : State) : Prop := s.up = true ∧ L.load s.files = .ok s.table

theorem InSync.accepted (h : InSync L s) : Accepted L s := ⟨_, _, h.2⟩

/-- The loader reads the two files themselves. -/
theorem load_congr {files files' : Files} (h : settled files' = settled files) :
    L.load files' = L.load files := by
  have htext : ∀ t, textOf files' t = textOf files t := fun t =>
    congrArg (Option.getD · "") (congrFun h t)
  rw [Loader.load, Loader.load, htext, htext]

theorem loads_of_planEdits {faults : Faults} {current : Loaded} {edits : List Edit} {files : Files}
    {next : Loaded} {config secrets : String}
    (h : planEdits L faults current edits files = .ok (next, config, secrets)) :
    L.loadTexts config secrets = .ok next := by
  simp only [planEdits] at h
  split_ifs at h
  obtain ⟨⟨configFormat, configTable⟩, -, h⟩ := bind_eq_ok.mp h
  obtain ⟨⟨secretsFormat, secretsTable⟩, -, h⟩ := bind_eq_ok.mp h
  obtain ⟨⟨configTable', secretsTable'⟩, -, h⟩ := bind_eq_ok.mp h
  obtain ⟨loaded, hload, h⟩ := bind_eq_ok.mp h
  cases h
  exact hload

theorem load_of_loadFiles {unread : EditTarget → Option String} {files : Files} {next : Loaded}
    (h : loadFiles L unread files = .ok next) : L.load files = .ok next := by
  unfold loadFiles at h
  split at h
  · cases h
  · cases h
  · exact h

theorem along_writing {P : State → Prop} {m : Fallible Files (List Issue) Unit}
    {k : Section State Answer} (hnow : P s) (hthen : P { s with files := (m.exec s.files).2 })
    (hk : m.Ends s.files → k.Along P { s with files := (m.exec s.files).2 }) :
    (writing m k).Along P s := by
  refine ⟨hnow, ?_⟩
  beta_reduce
  cases hends : (m.exec s.files).1 with
  | error issues => exact hthen
  | ok u => exact hk (Fallible.ends_iff.mpr hends)

theorem along_installing {P : State → Prop} {next : Loaded} (hnow : P s)
    (hthen : P (install next s)) : (installing next).Along P s := ⟨hnow, hthen⟩

/-- An accepted configuration is in force all along. -/
theorem accepted_along (h : Accepted L s) (r : Request) : (r.body L).Along (Accepted L) s := by
  have hfiles : ∀ (s : State) files, Accepted L s → Accepted L { s with files } :=
    fun _ _ h => h
  cases r with
  | apply faults edits =>
    refine ⟨h, h, ?_⟩
    show (writePlan faults edits (planEdits L faults s.table edits s.files)).Along _ s
    cases hplan : planEdits L faults s.table edits s.files with
    | error issues => exact h
    | ok plan =>
      have hnext : ∀ s, Accepted L (install plan.1 s) := fun _ => ⟨_, _, loads_of_planEdits hplan⟩
      refine along_writing h (hfiles _ _ h) fun _ => ?_
      refine along_writing (hfiles _ _ h) (hfiles _ _ h) fun _ => ?_
      exact along_installing (hfiles _ _ h) (hnext _)
  | reload unread =>
    refine ⟨h, ?_⟩
    show (installLoaded (loadFiles L unread s.files)).Along _ s
    cases hload : loadFiles L unread s.files with
    | error issues => exact h
    | ok next => exact along_installing h ⟨_, _, load_of_loadFiles hload⟩

/-! ### In step with the files -/

/-- Edits of both files of which only one gets written. -/
def Request.Breaks (L : Loader) (s : State) : Request → Prop
  | .apply faults edits => HalfWritten L faults s.table edits s.files
  | .reload _ => False

/-- At most one of the files is edited. -/
def Request.OneFile : Request → Prop
  | .apply _ edits => ¬((∃ e ∈ edits, e.target = .config) ∧ ∃ e ∈ edits, e.target = .secrets)
  | .reload _ => True

theorem Request.OneFile.not_breaks {r : Request} (h : r.OneFile) : ¬r.Breaks L s := by
  cases r with
  | apply faults edits => exact fun hhalf => h ⟨hhalf.1, hhalf.2.1⟩
  | reload unread => exact id

theorem inSync_serve (hprint : L.toml.Faithful) (h : InSync L s) {r : Request}
    (hbreaks : ¬r.Breaks L s) : InSync L (serve L s r).2 := by
  cases r with
  | apply faults edits =>
    have hkeeps := (applyEdits_keepsPromise_iff hprint faults s.table edits s.files).mpr hbreaks
    rw [serve]
    rcases hexec : (applyEdits L faults s.table edits).exec s.files with ⟨issues | next, files⟩
    · rw [hexec] at hkeeps
      exact ⟨h.1, (load_congr hkeeps).trans h.2⟩
    · rw [hexec] at hkeeps
      exact ⟨h.1, hkeeps⟩
  | reload unread =>
    rw [serve]
    cases hload : loadFiles L unread s.files with
    | error issues => exact h
    | ok next => exact ⟨h.1, load_of_loadFiles hload⟩

theorem restart_of_load {table : Loaded} (h : L.load s.files = .ok table) :
    restart L s = { s with table, up := true } := by
  rw [restart, h]

theorem accepted_restart (h : Accepted L s) : Accepted L (restart L s) := by
  cases hload : L.load s.files with
  | ok table =>
    rw [restart_of_load hload]
    exact ⟨_, _, hload⟩
  | error issues =>
    rw [restart, hload]
    exact h

/-- The process runs, and the files hold the configuration from before the request, or the one
after it. -/
def Between (L : Loader) (start : State) (r : Request) (s : State) : Prop :=
  s.up = true ∧
    (L.load s.files = .ok start.table ∨ L.load s.files = .ok (serve L start r).2.table)

/-- Edits of which both writes have ended are in force. -/
theorem load_of_ends (hprint : L.toml.Faithful) {faults : Faults} {edits : List Edit}
    (hone : (Request.apply faults edits).OneFile) {next : Loaded} {config secrets : String}
    (hplan : planEdits L faults s.table edits s.files = .ok (next, config, secrets))
    (h₁ : (writeTarget faults edits .config config none "config.toml").Ends s.files)
    {files : Files}
    (hfiles : ((writeTarget faults edits .config config none "config.toml").exec s.files).2 = files)
    (h₂ : (writeTarget faults edits .secrets secrets (some secretsMode) "secrets.toml").Ends files) :
    L.load ((writeTarget faults edits .secrets secrets (some secretsMode)
        "secrets.toml").exec files).2 = .ok next ∧
      (serve L s (.apply faults edits)).2.table = next := by
  subst hfiles
  have hexec : (applyEdits L faults s.table edits).exec s.files =
      (.ok next, ((writeTarget faults edits .secrets secrets (some secretsMode)
        "secrets.toml").exec ((writeTarget faults edits .config config none
          "config.toml").exec s.files).2).2) := by
    rw [applyEdits, Fallible.exec_look_bind hplan, Fallible.exec_seq h₁, Fallible.exec_seq h₂]
    rfl
  have hkeeps := (applyEdits_keepsPromise_iff hprint faults s.table edits s.files).mpr
    (hone.not_breaks (L := L) (s := s))
  rw [hexec] at hkeeps
  refine ⟨hkeeps, ?_⟩
  rw [serve, hexec]

/-- **In the middle of a request** for one file. -/
theorem between_along (hprint : L.toml.Faithful) (h : InSync L s) {r : Request} (hone : r.OneFile) :
    (r.body L).Along (Between L s r) s := by
  have hnow : Between L s r s := ⟨h.1, .inl h.2⟩
  have hold : ∀ files, settled files = settled s.files → Between L s r { s with files } :=
    fun files hsame => ⟨h.1, .inl ((load_congr hsame).trans h.2)⟩
  cases r with
  | apply faults edits =>
    refine ⟨hnow, hnow, ?_⟩
    show (writePlan faults edits (planEdits L faults s.table edits s.files)).Along _ s
    cases hplan : planEdits L faults s.table edits s.files with
    | error issues => exact hnow
    | ok plan =>
      obtain ⟨next, config, secrets⟩ := plan
      obtain ⟨-, hnew₁, hold₁⟩ :=
        writeTarget_spec faults edits .config config none "config.toml" s.files
      generalize hfiles : ((writeTarget faults edits .config config none
        "config.toml").exec s.files).2 = files at hnew₁ hold₁
      obtain ⟨hends₂, hnew₂, hold₂⟩ := writeTarget_spec faults edits .secrets secrets
        (some secretsMode) "secrets.toml" files
      have hboth := fun h₁ h₂ => load_of_ends hprint hone hplan h₁ hfiles h₂
      have hfirst : Between L s (.apply faults edits) { s with files } := by
        by_cases h₁ : (writeTarget faults edits .config config none "config.toml").Ends s.files
        · by_cases hconfig : ∃ e ∈ edits, e.target = .config
          · -- the second write has nothing to do
            have hsecrets : ¬∃ e ∈ edits, e.target = .secrets := fun h => hone ⟨hconfig, h⟩
            have h₂ := hends₂.mpr fun hfails => hsecrets hfails.1
            have hsame := hnew₂ h₂
            rw [if_neg hsecrets] at hsame
            obtain ⟨hload, htable⟩ := hboth h₁ h₂
            exact ⟨h.1, .inr ((load_congr hsame).symm.trans (htable ▸ hload))⟩
          · have hsame := hnew₁ h₁
            rw [if_neg hconfig] at hsame
            exact hold files hsame
        · exact hold files (hold₁ h₁)
      have hsecond (h₁ : (writeTarget faults edits .config config none
          "config.toml").Ends s.files) : Between L s (.apply faults edits) { s with files :=
            ((writeTarget faults edits .secrets secrets (some secretsMode)
              "secrets.toml").exec files).2 } := by
        by_cases h₂ : (writeTarget faults edits .secrets secrets (some secretsMode)
          "secrets.toml").Ends files
        · obtain ⟨hload, htable⟩ := hboth h₁ h₂
          exact ⟨h.1, .inr (htable ▸ hload)⟩
        · have hsame := load_congr (L := L) (hold₂ h₂)
          exact ⟨h.1, hfirst.2.imp hsame.trans hsame.trans⟩
      refine along_writing hnow (hfiles ▸ hfirst) fun h₁ => ?_
      rw [hfiles]
      refine along_writing hfirst (hsecond h₁) fun _ => ?_
      exact along_installing (hsecond h₁) (hsecond h₁)
  | reload unread =>
    refine ⟨hnow, ?_⟩
    show (installLoaded (loadFiles L unread s.files)).Along _ s
    cases hload : loadFiles L unread s.files with
    | error issues => exact hnow
    | ok next => exact along_installing hnow ⟨h.1, .inl h.2⟩

/-! ### Runs -/

variable {ι : Type}

/-- Requests while the process runs; it may be killed anywhere and is started again; and a person
may change the files while nobody has the lock. -/
inductive Allowed (L : Loader) : Sys ι State Answer → Event ι State Answer → Prop
  | request (i : ι) (r : Request) (s : State) (h : s.up = true) :
      Allowed L ⟨s, none⟩ (.acquire i (r.body L))
  | act (s : Sys ι State Answer) : Allowed L s .act
  | release (s : Sys ι State Answer) : Allowed L s .release
  | killed (s : Sys ι State Answer) : Allowed L s (.stop (restart L))
  | restarted (s : Sys ι State Answer) : Allowed L s (.change (restart L))
  | byHand (s : Sys ι State Answer) (change : Files → Files) :
      Allowed L s (.change fun s => { s with files := change s.files })

/-- Nobody else changes the files, no request breaks off between its two files, and the process is
not killed there. -/
inductive Careful (L : Loader) : Sys ι State Answer → Event ι State Answer → Prop
  | request (i : ι) (r : Request) (s : State) (h : ¬r.Breaks L s) :
      Careful L ⟨s, none⟩ (.acquire i (r.body L))
  | act (s : Sys ι State Answer) : Careful L s .act
  | release (s : Sys ι State Answer) : Careful L s .release
  | killed (i : ι) (r : Request) (rest : Section State Answer) (s : State) (h : r.OneFile) :
      Careful L ⟨s, some ⟨i, r.body L, rest⟩⟩ (.stop (restart L))
  | restarted (s : Sys ι State Answer) : Careful L s (.change (restart L))

section Runs

variable {s₀ : State} {sys : Sys ι State Answer} {tr : List (Seen ι State Answer)}

/-- Where a request for one file is killed, the process starts with the configuration from before
it, or with the one after it. -/
theorem restart_of_passes (hprint : L.toml.Faithful) {start s : State} (h : InSync L start)
    {r : Request} (hone : r.OneFile) {rest : Section State Answer}
    (hpasses : (r.body L).Passes start rest s) :
    InSync L (restart L s) ∧ ((restart L s).table = start.table ∨
      (restart L s).table = (serve L start r).2.table) := by
  obtain ⟨-, hload | hload⟩ := (hpasses.along (between_along hprint h hone)).now
  · rw [restart_of_load hload]
    exact ⟨⟨rfl, hload⟩, .inl rfl⟩
  · rw [restart_of_load hload]
    exact ⟨⟨rfl, hload⟩, .inr rfl⟩

theorem up_along (h : s.up = true) (r : Request) :
    (r.body L).Along (fun s => s.up = true) s := by
  cases r with
  | apply faults edits =>
    refine ⟨h, h, ?_⟩
    show (writePlan faults edits (planEdits L faults s.table edits s.files)).Along _ s
    cases planEdits L faults s.table edits s.files with
    | error issues => exact h
    | ok plan => exact along_writing h h fun _ => along_writing h h fun _ => along_installing h h
  | reload unread =>
    refine ⟨h, ?_⟩
    show (installLoaded (loadFiles L unread s.files)).Along _ s
    cases loadFiles L unread s.files with
    | error issues => exact h
    | ok next => exact along_installing h h

theorem accepted_atTurn (h₀ : Accepted L s₀)
    (h : Reaches step (Allowed L) ⟨s₀, none⟩ tr sys) : AtTurn (Allowed L) (Accepted L) sys := by
  refine turns (I := fun _ => Accepted L) h h₀ ?_ ?_ ?_
  · intro _ s i whole hs hok
    cases hok with
    | request i r s hup => exact (accepted_along hs r).run
  · intro _ start i whole rest s f hstart hok hpasses hstop
    cases hstop with
    | killed =>
      cases hok with
      | request i r s hup => exact accepted_restart (hpasses.along (accepted_along hstart r)).now
  · intro _ s f hs hok
    cases hok with
    | restarted => exact accepted_restart hs
    | byHand change => exact hs

theorem inSync_atTurn (hprint : L.toml.Faithful) (h₀ : InSync L s₀)
    (h : Reaches step (Careful L) ⟨s₀, none⟩ tr sys) : AtTurn (Careful L) (InSync L) sys := by
  refine turns (I := fun _ => InSync L) h h₀ ?_ ?_ ?_
  · intro _ s i whole hs hok
    cases hok with
    | request i r s hbreaks =>
      rw [run_body]
      exact inSync_serve hprint hs hbreaks
  · intro _ start i whole rest s f hstart hok hpasses hstop
    cases hstop with
    | killed i r rest s hone => exact (restart_of_passes hprint hstart hone hpasses).1
  · intro _ s f hs hok
    cases hok with
    | restarted =>
      rw [restart_of_load hs.2]
      exact ⟨rfl, hs.2⟩

/-- **The configuration in force.**  Whatever is asked, killed and changed by hand, it is one that
the loader has accepted, and the requests are served one at a time, each on the files that the one
before it left.  Without changes by hand, and unless a request for both files breaks off between
them, the process always runs, with the configuration that the files load to; and where it is
killed in a request for one file, it starts with the configuration before that request or the one
after it. -/
theorem configuration_in_force (hprint : L.toml.Faithful) (h₀ : InSync L s₀) :
    (Reaches step (Allowed L) ⟨s₀, none⟩ tr sys →
      Accepted L sys.shared ∧ AtTurn (Allowed L) (Replays s₀ tr) sys) ∧
    (Reaches step (Careful L) ⟨s₀, none⟩ tr sys →
      sys.shared.up = true ∧ (sys.holder = none → InSync L sys.shared) ∧
        ∀ i r rest, sys.holder = some ⟨i, r.body L, rest⟩ → r.OneFile →
          ∃ start, InSync L start ∧ (r.body L).Passes start rest sys.shared ∧
            ((restart L sys.shared).table = start.table ∨
              (restart L sys.shared).table = (serve L start r).2.table)) ∧
    ∀ (r : Request) s, (r.body L).run s = serve L s r := by
  refine ⟨fun h => ⟨?_, replays_of_reaches h⟩, fun h => ?_, fun r s => run_body r⟩
  · refine along (accepted_atTurn h₀.accepted h) (fun _ hs => hs) fun s i whole hs hok => ?_
    cases hok with
    | request i r s hup => exact accepted_along hs r
  · have hturn := inSync_atTurn hprint h₀ h
    refine ⟨?_, fun hfree => ?_, fun i r rest hheld hone => ?_⟩
    · refine along hturn (fun _ hs => hs.1) fun s i whole hs hok => ?_
      cases hok with
      | request i r s hbreaks => exact up_along hs.1 r
    · rw [AtTurn, hfree] at hturn
      exact hturn
    · rw [AtTurn, hheld] at hturn
      obtain ⟨start, hstart, -, hpasses⟩ := hturn
      exact ⟨start, hstart, hpasses, (restart_of_passes hprint hstart hone hpasses).2⟩

end Runs

/-! ### Validation -/

/-- **What is validated is what applies**: where no file operation fails, edits are answered as they
were when they were only to be validated. -/
theorem validate_eq_serve (edits : List Edit) :
    validate L (fun _ _ => none) edits s = (serve L s (.apply (fun _ _ => none) edits)).1 := by
  have hends : ∀ t contents mode name files,
      (writeTarget (fun _ _ => none) edits t contents mode name).Ends files := by
    intro t contents mode name files
    refine (writeTarget_spec _ edits t contents mode name files).1.mpr fun ⟨_, _, _, hfails⟩ => ?_
    exact hfails rfl
  rw [validate, serve, applyEdits]
  cases hplan : planEdits L (fun _ _ => none) s.table edits s.files with
  | error issues =>
    rw [Fallible.exec_look_stopped hplan]
    rfl
  | ok plan =>
    rw [Fallible.exec_look_bind hplan, Fallible.exec_seq (hends ..), Fallible.exec_seq (hends ..)]
    rfl

/-! ### A process that is killed -/

section Sample

def sampleState : State := ⟨fun _ => none, ⟨{}, ⟨fun _ => none, .empty⟩, [], []⟩, true⟩

def bindRequest : Request :=
  .apply (fun _ _ => none) [⟨["server", "http_bind"], some (.string "127.0.0.1:9000")⟩]

/-- The new file is in place and the table not swapped: the process starts with the new address. -/
theorem configuration_in_force_killed : ∃ tr, ∃ sys : Sys ℕ State Answer,
    Reaches step (Careful editExample) ⟨sampleState, none⟩ tr sys ∧
      sys.shared.table.settings.server.httpBind = "127.0.0.1:9000" ∧
      InSync editExample sys.shared := by
  have hone : bindRequest.OneFile := by
    rintro ⟨-, e, he, htarget⟩
    cases List.mem_singleton.mp he
    cases htarget
  have hprint : editExample.toml.Faithful := by
    intro text doc hdoc
    change (if text = "" then Except.ok ((), []) else .error "TOML parse error") = .ok doc at hdoc
    split_ifs at hdoc with hempty
    cases hdoc
    exact hempty.symm
  have idle : Reaches (@step ℕ State Answer) (Careful editExample) ⟨sampleState, none⟩ []
      ⟨sampleState, none⟩ := .init
  have acquired := idle.snoc (.request 0 bindRequest sampleState hone.not_breaks) rfl
  have looked := acquired.snoc (.act _) rfl
  have planned := looked.snoc (.act _) rfl
  have written := planned.snoc (.act _) rfl
  have killed := written.snoc (.killed 0 bindRequest _ _ hone) rfl
  refine ⟨_, _, killed, by decide +kernel, ?_⟩
  exact ((configuration_in_force hprint ⟨rfl, rfl⟩).2.1 killed).2.1 rfl

end Sample

end OnchainDataMcp.Server.AdminConfig
