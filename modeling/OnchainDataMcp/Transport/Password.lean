import OnchainDataMcp.Domain.Text
import OnchainDataMcp.Lib.Disk
import OnchainDataMcp.Lib.Interleave
import OnchainDataMcp.Lib.Wire

/-!
# The dashboard password

The password of the dashboard is the `DASHBOARD_PASSWORD` variable, or the content of a file that
the first start generates, or that is renamed from its old name.  Several servers may start at once
on one directory: each of them runs `ensureDashboardPassword`, and their file operations interleave.

* `ensureDashboardPassword` — what a start does, as a program of file operations;
* `contract` — what the starts leave of each other's files;
* `ensure_spec` — a start keeps the contract and returns what the file holds;
* `passwords_agree` — every start that returns a password returns the same one.
-/

namespace OnchainDataMcp.Transport

open OnchainDataMcp.Domain OnchainDataMcp.Lib OnchainDataMcp.Lib.Disk OnchainDataMcp.Lib.Interleave
open OnchainDataMcp.Lib.Runs OnchainDataMcp.Lib.Wire

/-! ### Passwords -/

def minLen : ℕ := 12

def fileName : String := "dashboard_password"

def legacyFileName : String := "admin_token"

/-- The password travels in an HTTP header: printable ASCII only, no spaces. -/
def check (pw : String) : Except String Unit :=
  if !pw.toList.all fun c => 0x21 ≤ c.toNat && c.toNat ≤ 0x7e then
    .error ("can only use plain letters, numbers and symbols (no spaces or accented letters)")
  else if pw.utf8ByteSize < minLen then
    .error ("is too short: it needs at least " ++ toString minLen ++ " characters")
  else .ok ()

def isLong (pw : String) : Bool := minLen ≤ pw.utf8ByteSize

/-- `hex::encode` of random bytes. -/
def randomHex (bytes : List UInt8) : String :=
  String.ofList (bytes.flatMap fun b =>
    [Nat.digitChar (b.toNat / 16), Nat.digitChar (b.toNat % 16)])

/-- Where the password came from. -/
inductive Source
  /-- The `DASHBOARD_PASSWORD` env var (the file is never touched). -/
  | env
  | file (created migrated : Bool)
  deriving DecidableEq, Repr

def Source.isCreated : Source → Bool
  | env => false
  | file created _ => created

/-- A process that calls, with what it draws. -/
structure Caller where
  /-- `DASHBOARD_PASSWORD`. -/
  env : Option String
  pid : ℕ
  password : Block UInt8 32
  suffix : Block UInt8 4
  /-- The pieces that `write_all` writes a text in. -/
  pieces : List Char → List (List Char)
  flatten_pieces : ∀ text, (pieces text).flatten = text

namespace Caller

def generated (c : Caller) : String := randomHex c.password.1

def tmpName (c : Caller) : String :=
  "." ++ fileName ++ ".tmp-" ++ toString c.pid ++ "-" ++ randomHex c.suffix.1

/-- A blank variable counts as unset. -/
def fromEnv (c : Caller) : Option String := (c.env.map trim).filter (· ≠ "")

end Caller

/-! ### The program -/

section Program

variable {ι : Type}

abbrev Call (ι α : Type) := Prog (Op ι) Resp String α

def pathExists (name : String) : Call ι Bool := Prog.perform (Op.pathExists name)

def rename (name name' : String) : Call ι (Except IoError Unit) :=
  Prog.perform (Op.rename name name')

def hardLink (name name' : String) : Call ι (Except IoError Unit) :=
  Prog.perform (Op.hardLink name name')

def openRead (name : String) : Call ι (Except IoError (Inode ι)) := Prog.perform (Op.openRead name)

def readToEnd (file : Inode ι) : Call ι (Except IoError (List Char)) :=
  Prog.perform (Op.readToEnd file)

def remove (name : String) : Call ι (Except IoError Unit) := Prog.perform (Op.remove name)

def createDirAll : Call ι (Except IoError Unit) := Prog.perform Op.createDirAll

def createNew (name : String) : Call ι (Except IoError (Inode ι)) := Prog.perform (Op.createNew name)

def append (file : Inode ι) (text : List Char) : Call ι (Except IoError Unit) :=
  Prog.perform (Op.append file text)

def sync (file : Inode ι) : Call ι (Except IoError Unit) := Prog.perform (Op.sync file)

def readToString (name : String) : Call ι (Except IoError String) := do
  match ← openRead name with
  | .error e => pure (.error e)
  | .ok file =>
    match ← readToEnd file with
    | .error e => pure (.error e)
    | .ok text => pure (.ok (String.ofList text))

def writeAll (file : Inode ι) : List (List Char) → Call ι (Except IoError Unit)
  | [] => pure (.ok ())
  | text :: rest => do
    match ← append file text with
    | .error e => pure (.error e)
    | .ok () => writeAll file rest

/-- New file, mode 0600 from the start on unix. -/
def writeNew (c : Caller) (name contents : String) : Call ι (Except IoError Unit) := do
  match ← createNew name with
  | .error e => pure (.error e)
  | .ok file =>
    match ← writeAll file (c.pieces contents.toList) with
    | .error e => pure (.error e)
    | .ok () => sync file

-- the directory as it is shown, and the texts of errors
variable (dir : String) (text : IoError → String)

def shown (name : String) : String := dir ++ "/" ++ name

/-- Trimmed contents, `none` if missing.  Fails if unreadable, or long enough but with characters
that can't be sent (too-short contents are returned so the caller can regenerate them). -/
def read (name : String) : Call ι (Option String) := do
  match ← readToString name with
  | .error .notFound => pure none
  | .error e => .fail ("cannot read " ++ shown dir name ++ ": " ++ text e)
  | .ok contents =>
    let pw := trim contents
    if isLong pw then
      match check pw with
      | .error why => .fail ("the password in " ++ shown dir name ++ " " ++ why)
      | .ok () => pure (some pw)
    else pure (some pw)

/-- The full file is written under a temp name and hard-linked into place, which fails for the
loser of a race.  Returns the password and whether this call created it. -/
def createIfAbsent (c : Caller) : Call ι (String × Bool) := do
  match ← createDirAll with
  | .error e => .fail ("cannot create " ++ dir ++ ": " ++ text e)
  | .ok () =>
    match ← writeNew c c.tmpName (c.generated ++ "\n") with
    | .error e => .fail ("cannot write " ++ shown dir c.tmpName ++ ": " ++ text e)
    | .ok () =>
      match ← hardLink c.tmpName fileName with
      | .ok () => do
        let _ ← remove c.tmpName
        pure (c.generated, true)
      | .error .alreadyExists => do
        let _ ← remove c.tmpName
        match (← read dir text fileName).filter isLong with
        | some existing => pure (existing, false)
        | none => .fail (shown dir fileName ++ " is empty or too short")
      | .error _ => do
        match ← rename c.tmpName fileName with
        | .ok () => pure (c.generated, true)
        | .error e => do
          let _ ← remove c.tmpName
          .fail ("cannot write " ++ shown dir fileName ++ ": " ++ text e)

/-- The old file renamed, or its password where it cannot be. -/
def migrate : Call ι (Bool ⊕ String) := do
  if ← pathExists fileName then pure (.inl false)
  else if ← pathExists legacyFileName then
    match ← rename legacyFileName fileName with
    | .ok () => pure (.inl true)
    | .error _ =>
      match (← read dir text legacyFileName).filter isLong with
      | some pw => pure (.inr pw)
      | none => pure (.inl false)
  else pure (.inl false)

def create (c : Caller) (migrated : Bool) : Call ι (String × Source) := do
  let (pw, created) ← createIfAbsent dir text c
  pure (pw, .file created migrated)

/-- The password file read, or created where it is missing or too short. -/
def readOrCreate (c : Caller) (migrated : Bool) : Call ι (String × Source) := do
  match ← read dir text fileName with
  | none => create dir text c migrated
  | some pw =>
    if isLong pw then pure (pw, .file false migrated)
    else
      match ← remove fileName with
      | .ok () => create dir text c migrated
      | .error .notFound => create dir text c migrated
      | .error e => .fail ("cannot replace " ++ shown dir fileName ++ ": " ++ text e)

/-- The password from the variable or the password file, creating the file if needed. -/
def ensureDashboardPassword (c : Caller) : Call ι (String × Source) := do
  match c.fromEnv with
  | some v =>
    match check v with
    | .error why =>
      .fail ("DASHBOARD_PASSWORD " ++ why ++ ". Fix it, or remove it to use a generated password")
    | .ok () => pure (v, .env)
  | none =>
    match ← migrate dir text with
    | .inr pw => pure (pw, .file false false)
    | .inl migrated => readOrCreate dir text c migrated

end Program

/-! ### Generated passwords -/

theorem digitChar_printable {n : ℕ} (h : n < 16) :
    0x21 ≤ (Nat.digitChar n).toNat ∧ (Nat.digitChar n).toNat ≤ 0x7e := by
  have hall : ∀ m : Fin 16,
      0x21 ≤ (Nat.digitChar m).toNat ∧ (Nat.digitChar m).toNat ≤ 0x7e := by decide
  exact hall ⟨n, h⟩

theorem printable_randomHex {bytes : List UInt8} {c : Char} (h : c ∈ (randomHex bytes).toList) :
    0x21 ≤ c.toNat ∧ c.toNat ≤ 0x7e := by
  rw [randomHex, String.toList_ofList] at h
  obtain ⟨b, -, hc⟩ := List.mem_flatMap.mp h
  have hb := b.toNat_lt
  simp only [List.mem_cons, List.not_mem_nil, or_false] at hc
  rcases hc with rfl | rfl
  · exact digitChar_printable (by omega)
  · exact digitChar_printable (by omega)

theorem length_randomHex (bytes : List UInt8) :
    (randomHex bytes).toList.length = 2 * bytes.length := by
  rw [randomHex, String.toList_ofList]
  induction bytes with
  | nil => rfl
  | cons b bytes ih =>
    rw [List.flatMap_cons, List.length_append, ih]
    simp only [List.length_cons, List.length_nil]
    omega

theorem isWhitespace_of_mem_randomHex {bytes : List UInt8} {c : Char}
    (h : c ∈ (randomHex bytes).toList) : isWhitespace c = false := by
  obtain ⟨hlow, hhigh⟩ := printable_randomHex h
  exact isWhitespace_of_printable hlow (by omega)

/-- The file of a generated password holds it. -/
theorem trim_generated (c : Caller) : trim (c.generated ++ "\n") = c.generated :=
  trim_append_newline fun _ => isWhitespace_of_mem_randomHex

theorem isLong_of_check {pw : String} (h : check pw = .ok ()) : isLong pw = true := by
  unfold check at h
  split at h
  · cases h
  · split at h
    · cases h
    · rename_i hlong
      exact decide_eq_true (Nat.not_lt.mp hlong)

theorem check_generated (c : Caller) : check c.generated = .ok () := by
  have hlength : 64 ≤ c.generated.utf8ByteSize := by
    have h := length_le_utf8ByteSize c.generated
    rw [Caller.generated, length_randomHex, c.password.2] at h
    exact h
  have hprintable :
      (c.generated.toList.all fun c => 0x21 ≤ c.toNat && c.toNat ≤ 0x7e) = true := by
    apply List.all_eq_true.mpr
    intro x hx
    obtain ⟨hlow, hhigh⟩ := printable_randomHex hx
    rw [decide_eq_true hlow, decide_eq_true hhigh]
    rfl
  have hlong : ¬c.generated.utf8ByteSize < minLen := by
    show ¬c.generated.utf8ByteSize < 12
    omega
  rw [check, hprintable, if_neg (by decide), if_neg hlong]

/-! ### The contract -/

/-- Processes that start on a directory without a password file, with or without an old file that
holds an acceptable password. -/
structure Setup (ι : Type) where
  callers : ι → Caller
  files : String → Option (List Char)
  unset : ∀ i, (callers i).fromEnv = none
  noFile : files fileName = none
  legacy_ok : ∀ text, files legacyFileName = some text →
    check (trim (String.ofList text)) = .ok ()

namespace Setup

variable {ι : Type} (S : Setup ι)

/-- What a file holds when it is written. -/
def whole : Inode ι → List Char
  | .old name => (S.files name).getD []
  | .made i _ => ((S.callers i).generated ++ "\n").toList

/-- The password that a file holds. -/
def held (w : Inode ι) : String := trim (String.ofList (S.whole w))

structure Inv (d : Dir ι) : Prop where
  old : ∀ name, d.content (.old name) = S.whole (.old name)
  /-- The old file is there, or is the password file. -/
  moved : (S.files legacyFileName).isSome →
    (d.entry legacyFileName = some (.old legacyFileName) ∧ d.entry fileName = none) ∨
      (d.entry legacyFileName = none ∧ d.entry fileName = some (.old legacyFileName))
  /-- Without one, the password file is one that is completely written. -/
  linked : S.files legacyFileName = none → d.entry legacyFileName = none ∧
    ∀ w, d.entry fileName = some w → (∃ i k, w = .made i k) ∧ d.content w = S.whole w

/-- What the others leave alone: the files of `i`, the password file, and that the old one is
gone. -/
structure Frame (i : ι) (d d' : Dir ι) : Prop where
  keeps : d.Keeps i d'
  settled : ∀ w, d.entry fileName = some w → d'.entry fileName = some w
  gone : d.entry legacyFileName = none → d'.entry legacyFileName = none

/-- Only files that are completely written are read. -/
def needs (_ : ι) : Op ι → Dir ι → Prop
  | .readToEnd w, d => d.content w = S.whole w
  | _, _ => True

def contract : Contract ι (Dir ι) (Op ι) where
  inv := S.Inv
  frame := Frame
  needs := S.needs
  frame_refl i d := ⟨Dir.Keeps.refl i d, fun _ h => h, fun h => h⟩
  frame_trans _ _ _ _ h h' := ⟨h.keeps.trans h'.keeps, fun w hw => h'.settled w (h.settled w hw),
    fun hgone => h'.gone (h.gone hgone)⟩

/-- What a call that returns says of the directory. -/
def Promises (i : ι) (r : String × Source) (d : Dir ι) : Prop :=
  ∃ w, d.entry fileName = some w ∧ S.held w = r.1 ∧ (r.2.isCreated = true → ∃ k, w = .made i k)

variable {S} {i : ι} {d : Dir ι}

theorem stable_promises (r : String × Source) : S.contract.Stable i (S.Promises i r) :=
  fun _ _ hframe ⟨w, hw, hheld⟩ => ⟨w, hframe.settled w hw, hheld⟩

/-- A process with a file of its own to make. -/
def Fresh (i : ι) (d : Dir ι) : Prop :=
  d.made i = 0 ∧ ∀ name k, d.entry name ≠ some (.made i k)

theorem stable_fresh : S.contract.Stable i (Fresh i) := by
  intro d d' hframe ⟨hmade, hentry⟩
  refine ⟨hframe.keeps.made.trans hmade, fun name k h => ?_⟩
  exact hentry name k ((hframe.keeps.entries name k).mp h)

/-- There is a password file, or there was no old one. -/
def Ready (S : Setup ι) (d : Dir ι) : Prop :=
  S.files legacyFileName = none ∨ ∃ w, d.entry fileName = some w

theorem stable_ready : S.contract.Stable i S.Ready := by
  intro d d' hframe h
  rcases h with h | ⟨w, hw⟩
  · exact .inl h
  · exact .inr ⟨w, hframe.settled w hw⟩

theorem held_made (k : ℕ) : S.held (.made i k) = (S.callers i).generated := by
  show trim (String.ofList ((S.callers i).generated ++ "\n").toList) = _
  rw [String.ofList_toList, trim_generated]

/-- The password file is completely written, and holds an acceptable password. -/
theorem Inv.of_entry (h : S.Inv d) {w : Inode ι} (hw : d.entry fileName = some w) :
    d.content w = S.whole w ∧ check (S.held w) = .ok () := by
  cases hlegacy : S.files legacyFileName with
  | none =>
    obtain ⟨⟨j, k, rfl⟩, hcontent⟩ := (h.linked hlegacy).2 w hw
    exact ⟨hcontent, held_made (S := S) (i := j) k ▸ check_generated _⟩
  | some text =>
    rcases h.moved (by rw [hlegacy]; rfl) with ⟨-, hnone⟩ | ⟨-, hold⟩
    · rw [hnone] at hw
      cases hw
    · cases hold.symm.trans hw
      refine ⟨h.old _, ?_⟩
      show check (trim (String.ofList ((S.files legacyFileName).getD []))) = _
      rw [hlegacy]
      exact S.legacy_ok text hlegacy

theorem legacy_ne_file : legacyFileName ≠ fileName := by decide

theorem tmpName_ne {name : String} (c : Caller) (h : name.toList.head? ≠ some '.') :
    c.tmpName ≠ name := by
  intro heq
  apply h
  rw [← heq, Caller.tmpName]
  simp only [String.toList_append]
  rfl

theorem tmpName_ne_file (c : Caller) : c.tmpName ≠ fileName := tmpName_ne c (by decide)

theorem tmpName_ne_legacy (c : Caller) : c.tmpName ≠ legacyFileName := tmpName_ne c (by decide)

/-! ### What a call does -/

variable [DecidableEq ι] {α : Type} {dir : String} {text : IoError → String}

variable (S) in
/-- From `d` the call of `i` keeps the contract and returns what `Q` says. -/
abbrev wp (i : ι) (Q : α → Dir ι → Prop) (prog : Call ι α) (d : Dir ι) : Prop :=
  S.contract.wp Dir.exec i Q prog d

theorem wp_pathExists {name : String} {f : Bool → Call ι α} {Q : α → Dir ι → Prop}
    (h : ∀ d₁, Frame i d d₁ → S.Inv d₁ → S.wp i Q (f (d₁.entry name).isSome) d₁) :
    S.wp i Q (pathExists name >>= f) d :=
  Contract.wp_silent (fun _ _ => rfl) fun d₁ hframe hinv => ⟨trivial, fun _ => h d₁ hframe hinv⟩

/-- A file is opened as it is when it is opened, or the call fails. -/
theorem wp_openRead {name : String} {f : Except IoError (Inode ι) → Call ι α}
    {Q : α → Dir ι → Prop}
    (hother : ∀ d₁, Frame i d d₁ → S.Inv d₁ → S.wp i Q (f (.error .other)) d₁)
    (hnone : ∀ d₁, Frame i d d₁ → S.Inv d₁ → d₁.entry name = none →
      S.wp i Q (f (.error .notFound)) d₁)
    (hsome : ∀ d₁ w, Frame i d d₁ → S.Inv d₁ → d₁.entry name = some w →
      S.wp i Q (f (.ok w)) d₁) :
    S.wp i Q (openRead name >>= f) d := by
  refine Contract.wp_silent (fun _ _ => Dir.snd_exec_openRead _) fun d₁ hframe hinv =>
    ⟨trivial, fun fault => ?_⟩
  show S.wp i Q (f (Dir.exec i fault d₁ (.openRead name)).1) d₁
  cases fault with
  | true => exact hother d₁ hframe hinv
  | false =>
    cases hentry : d₁.entry name with
    | none =>
      rw [Dir.exec_openRead_of_missing hentry]
      exact hnone d₁ hframe hinv hentry
    | some w =>
      rw [Dir.exec_openRead_of_entry hentry]
      exact hsome d₁ w hframe hinv hentry

/-- The old file is gone, so it is not read. -/
theorem readToString_legacy {L : Dir ι → Prop} (hL : S.contract.Stable i L) (h : L d)
    (hgone : d.entry legacyFileName = none) :
    S.wp i (fun r d' => L d' ∧ ∀ text, r ≠ .ok text) (readToString legacyFileName) d := by
  unfold readToString
  apply wp_openRead
  · intro d₁ hframe _
    exact ⟨hL d d₁ hframe h, nofun⟩
  · intro d₁ hframe _ _
    exact ⟨hL d d₁ hframe h, nofun⟩
  · intro d₁ w hframe _ hentry
    rw [hframe.gone hgone] at hentry
    cases hentry

/-- The password file is read completely. -/
theorem readToString_file {L : Dir ι → Prop} (hL : S.contract.Stable i L) (h : L d)
    (hready : S.Ready d) :
    S.wp i (fun r d' => L d' ∧ (r = .error .notFound → S.files legacyFileName = none) ∧
        ∀ contents, r = .ok contents → ∃ w, d'.entry fileName = some w ∧
          contents = String.ofList (S.whole w) ∧ check (S.held w) = .ok ())
      (readToString fileName) d := by
  unfold readToString
  apply wp_openRead
  · intro d₁ hframe _
    exact ⟨hL d d₁ hframe h, nofun, nofun⟩
  · intro d₁ hframe _ hentry
    refine ⟨hL d d₁ hframe h, fun _ => ?_, nofun⟩
    apply (stable_ready d d₁ hframe hready).resolve_right
    intro ⟨w, hw⟩
    rw [hentry] at hw
    cases hw
  · intro d₁ w hframe _ hentry
    refine Contract.wp_silent (fun _ _ => Dir.snd_exec_readToEnd _) fun d₂ hframe₂ hinv₂ => ?_
    have hentry₂ := hframe₂.settled w hentry
    obtain ⟨hcontent, hcheck⟩ := hinv₂.of_entry hentry₂
    have hL₂ := hL d₁ d₂ hframe₂ (hL d d₁ hframe h)
    refine ⟨hcontent, fun fault => ?_⟩
    cases fault with
    | true => exact ⟨hL₂, nofun, nofun⟩
    | false =>
      refine ⟨hL₂, nofun, fun contents hcontents => ⟨w, hentry₂, ?_, hcheck⟩⟩
      cases hcontents
      exact congrArg String.ofList hcontent

/-- The old file gives no password. -/
theorem read_legacy {L : Dir ι → Prop} (hL : S.contract.Stable i L) (h : L d)
    (hgone : d.entry legacyFileName = none) :
    S.wp i (fun r d' => L d' ∧ r = none) (read dir text legacyFileName) d := by
  unfold read
  apply Contract.wp_bind
  apply Contract.wp_mono _ (readToString_legacy hL h hgone)
  intro r d' ⟨hL', hr⟩
  cases r with
  | ok contents => exact (hr contents rfl).elim
  | error e =>
    cases e with
    | notFound => exact ⟨hL', rfl⟩
    | alreadyExists => trivial
    | other => trivial

/-- The password file gives the password it holds. -/
theorem read_file {L : Dir ι → Prop} (hL : S.contract.Stable i L) (h : L d) (hready : S.Ready d) :
    S.wp i (fun r d' => L d' ∧ (r = none → S.files legacyFileName = none) ∧
        ∀ pw, r = some pw → isLong pw = true ∧ ∃ w, d'.entry fileName = some w ∧ S.held w = pw)
      (read dir text fileName) d := by
  unfold read
  apply Contract.wp_bind
  apply Contract.wp_mono _ (readToString_file hL h hready)
  intro r d' ⟨hL', hmissing, hr⟩
  cases r with
  | error e =>
    cases e with
    | notFound => exact ⟨hL', fun _ => hmissing rfl, nofun⟩
    | alreadyExists => trivial
    | other => trivial
  | ok contents =>
    have hheld : ∃ w, d'.entry fileName = some w ∧ S.held w = trim contents ∧
        check (trim contents) = .ok () := by
      obtain ⟨w, hentry, rfl, hcheck⟩ := hr contents rfl
      exact ⟨w, hentry, rfl, hcheck⟩
    have hcheck := hheld.choose_spec.2.2
    have hlong := isLong_of_check hcheck
    show S.wp i _ (if isLong (trim contents) then _ else _) d'
    rw [if_pos hlong, hcheck]
    refine ⟨hL', fun h => (by cases h), fun pw hpw => ?_⟩
    cases hpw
    exact ⟨hlong, hheld.imp fun _ h => ⟨h.1, h.2.1⟩⟩

/-- The directory after the old file is renamed. -/
def migratedDir (d : Dir ι) : Dir ι :=
  (d.enter fileName (some (.old legacyFileName))).enter legacyFileName none

omit [DecidableEq ι] in
theorem entry_migratedDir :
    (migratedDir d).entry legacyFileName = none ∧
      (migratedDir d).entry fileName = some (.old legacyFileName) := by
  refine ⟨Dir.entry_enter_self, ?_⟩
  rw [migratedDir, Dir.entry_enter_of_ne legacy_ne_file.symm, Dir.entry_enter_self]

omit [DecidableEq ι] in
/-- The old file is renamed where it is there, and nobody minds. -/
theorem Inv.migrate (h : S.Inv d) {w : Inode ι} (hw : d.entry legacyFileName = some w) :
    w = .old legacyFileName ∧ d.entry fileName = none ∧ S.Inv (migratedDir d) ∧
      ∀ j, Frame j d (migratedDir d) := by
  have hsome : S.files legacyFileName ≠ none := by
    intro hnone
    rw [(h.linked hnone).1] at hw
    cases hw
  rcases h.moved (Option.isSome_iff_ne_none.mpr hsome) with ⟨hold, hfile⟩ | ⟨hgone, -⟩
  · cases hold.symm.trans hw
    refine ⟨rfl, hfile, ⟨h.old, fun _ => .inr entry_migratedDir, fun hnone => absurd hnone hsome⟩,
      fun j => ⟨?_, fun w hw => ?_, fun _ => entry_migratedDir.1⟩⟩
    · have hentered : d.Keeps j (d.enter fileName (some (.old legacyFileName))) := by
        apply Dir.keeps_enter
        · intro k hk
          rw [hfile] at hk
          cases hk
        · intro k hk
          cases hk
      apply hentered.trans
      apply Dir.keeps_enter
      · intro k hk
        rw [Dir.entry_enter_of_ne legacy_ne_file, hold] at hk
        cases hk
      · intro k hk
        cases hk
    · rw [hfile] at hw
      cases hw
  · rw [hgone] at hw
    cases hw

omit [DecidableEq ι] in
/-- Where the old file is gone, it was not there, or it is the password file. -/
theorem Inv.ready (h : S.Inv d) (hgone : d.entry legacyFileName = none) : S.Ready d := by
  cases hold : S.files legacyFileName with
  | none => exact .inl hold
  | some t =>
    rcases h.moved (by rw [hold]; rfl) with ⟨hthere, -⟩ | ⟨-, hmoved⟩
    · rw [hgone] at hthere
      cases hthere
    · exact .inr ⟨_, hmoved⟩

/-- After the migration there is a password file, or there was no old one. -/
theorem migrate_spec {L : Dir ι → Prop} (hL : S.contract.Stable i L) (h : L d) :
    S.wp i (fun r d' => L d' ∧ S.Ready d' ∧ ∃ migrated, r = .inl migrated) (migrate dir text) d := by
  unfold migrate
  apply wp_pathExists
  intro d₁ hframe _
  have hL₁ := hL d d₁ hframe h
  cases hfile : d₁.entry fileName with
  | some w => exact ⟨hL₁, .inr ⟨w, hfile⟩, false, rfl⟩
  | none =>
    apply wp_pathExists
    intro d₂ hframe₂ hinv₂
    have hL₂ := hL d₁ d₂ hframe₂ hL₁
    cases hlegacy : d₂.entry legacyFileName with
    | none => exact ⟨hL₂, hinv₂.ready hlegacy, false, rfl⟩
    | some w =>
      apply Contract.wp_op
      intro d₃ hframe₃ hinv₃
      have hL₃ := hL d₂ d₃ hframe₃ hL₂
      refine ⟨trivial, fun fault => ?_⟩
      cases hlegacy₃ : d₃.entry legacyFileName with
      | none =>
        -- another call has renamed it in between
        refine ⟨_, _, Dir.exec_rename_of_missing fault hlegacy₃, hinv₃,
          fun j _ => S.contract.frame_refl j d₃, ?_⟩
        show S.wp i _ (read dir text legacyFileName >>= _) d₃
        apply Contract.wp_bind
        have hboth : S.contract.Stable i fun d => L d ∧ S.Ready d := fun d d' hframe h =>
          ⟨hL d d' hframe h.1, stable_ready d d' hframe h.2⟩
        apply Contract.wp_mono _ (read_legacy hboth ⟨hL₃, hinv₃.ready hlegacy₃⟩ hlegacy₃)
        intro r d' ⟨⟨hL', hready'⟩, hr⟩
        subst hr
        exact ⟨hL', hready', false, rfl⟩
      | some w' =>
        obtain ⟨rfl, hnone, hinv₄, hframe₄⟩ := hinv₃.migrate hlegacy₃
        refine ⟨_, _, Dir.exec_rename_of_ne fault hlegacy₃ (by rw [hnone]; nofun), hinv₄,
          fun j _ => hframe₄ j, ?_⟩
        exact ⟨hL d₃ _ (hframe₄ i) hL₃, .inr ⟨_, entry_migratedDir.2⟩, true, rfl⟩

/-! ### The file that a call makes -/

/-- `i` has made a file under `name`, and it is not the password file yet. -/
structure Owns (i : ι) (name : String) (contents : List Char) (d : Dir ι) : Prop where
  entry : d.entry name = some (.made i 0)
  content : d.content (.made i 0) = contents
  unlinked : d.entry fileName ≠ some (.made i 0)

omit [DecidableEq ι] in
theorem stable_owns {name : String} {contents : List Char} :
    S.contract.Stable i (Owns i name contents) := by
  intro d d' hframe h
  refine ⟨(hframe.keeps.entries name 0).mpr h.entry, (hframe.keeps.content 0).trans h.content, ?_⟩
  exact fun heq => h.unlinked ((hframe.keeps.entries fileName 0).mp heq)

/-- A name of its own: neither the password file's nor the old one's. -/
structure Temporary (name : String) : Prop where
  ne_file : name ≠ fileName
  ne_legacy : name ≠ legacyFileName

theorem temporary_tmpName (c : Caller) : Temporary c.tmpName :=
  ⟨tmpName_ne_file c, tmpName_ne_legacy c⟩

omit [DecidableEq ι] in
theorem Inv.enter {name : String} (h : S.Inv d) (hname : Temporary name)
    (file : Option (Inode ι)) : S.Inv (d.enter name file) := by
  have hfile := @Dir.entry_enter_of_ne _ d _ _ file hname.ne_file.symm
  have hlegacy := @Dir.entry_enter_of_ne _ d _ _ file hname.ne_legacy.symm
  refine ⟨h.old, fun hold => ?_, fun hnone => ?_⟩
  · rw [hfile, hlegacy]
    exact h.moved hold
  · rw [hfile, hlegacy]
    exact h.linked hnone

theorem Inv.append {name : String} {contents more : List Char} (h : S.Inv d)
    (howns : Owns i name contents d) : S.Inv (d.append (.made i 0) more) := by
  refine ⟨fun name => ?_, h.moved, fun hnone => ⟨(h.linked hnone).1, fun w hw => ?_⟩⟩
  · rw [Dir.content_append_of_ne (by nofun)]
    exact h.old name
  · have hne : w ≠ .made i 0 := by
      rintro rfl
      exact howns.unlinked hw
    rw [Dir.content_append_of_ne hne]
    exact (h.linked hnone).2 w hw

theorem Inv.create {name : String} (h : S.Inv d) (hname : Temporary name) (hfresh : Fresh i d) :
    S.Inv (d.create i name) := by
  have hfile := Dir.entry_create_of_ne (d := d) (i := i) hname.ne_file.symm
  have hlegacy := Dir.entry_create_of_ne (d := d) (i := i) hname.ne_legacy.symm
  refine ⟨fun name => ?_, fun hold => ?_, fun hnone => ?_⟩
  · rw [Dir.content_create_of_ne (by nofun)]
    exact h.old name
  · rw [hfile, hlegacy]
    exact h.moved hold
  · rw [hfile, hlegacy]
    refine ⟨(h.linked hnone).1, fun w hw => ?_⟩
    have hne : w ≠ .made i (d.made i) := by
      rintro rfl
      exact hfresh.2 _ _ hw
    rw [Dir.content_create_of_ne hne]
    exact (h.linked hnone).2 w hw

omit [DecidableEq ι] in
/-- A complete file may become the password file. -/
theorem Inv.link {k : ℕ} (h : S.Inv d) (hnone : S.files legacyFileName = none)
    (hcontent : d.content (.made i k) = S.whole (.made i k)) :
    S.Inv (d.enter fileName (some (.made i k))) := by
  refine ⟨h.old, fun hold => ?_, fun _ => ⟨?_, fun w hw => ?_⟩⟩
  · rw [hnone] at hold
    cases hold
  · rw [Dir.entry_enter_of_ne legacy_ne_file]
    exact (h.linked hnone).1
  · rw [Dir.entry_enter_self] at hw
    cases hw
    exact ⟨⟨i, k, rfl⟩, hcontent⟩

omit [DecidableEq ι] in
theorem made_ne {j : ι} (hj : j ≠ i) (k k' : ℕ) : Inode.made i k ≠ .made j k' := by
  intro heq
  cases heq
  exact hj rfl

theorem writeAll_spec {name : String} {pieces : List (List Char)} {contents : List Char}
    (h : Owns i name contents d) :
    S.wp i (fun r d' => r = .ok () → Owns i name (contents ++ pieces.flatten) d')
      (writeAll (.made i 0) pieces) d := by
  induction pieces generalizing contents d with
  | nil =>
    intro _
    rw [List.flatten_nil, List.append_nil]
    exact h
  | cons piece rest ih =>
    apply Contract.wp_op
    intro d₁ hframe hinv
    have howns := stable_owns (S := S) d d₁ hframe h
    refine ⟨trivial, fun fault => ?_⟩
    cases fault with
    | true => exact ⟨_, _, rfl, hinv, fun j _ => S.contract.frame_refl j d₁, nofun⟩
    | false =>
      refine ⟨_, _, rfl, hinv.append howns, fun j hj => ⟨?_, fun _ hw => hw, fun hg => hg⟩, ?_⟩
      · exact Dir.keeps_append fun k => made_ne hj 0 k
      · rw [List.flatten_cons, ← List.append_assoc]
        apply ih
        refine ⟨howns.entry, ?_, howns.unlinked⟩
        rw [Dir.content_append_self, howns.content]

theorem writeNew_spec {name contents : String} (c : Caller) (hname : Temporary name)
    (h : Fresh i d) :
    S.wp i (fun r d' => r = .ok () → Owns i name contents.toList d') (writeNew c name contents) d := by
  apply Contract.wp_op
  intro d₁ hframe hinv
  have hfresh := stable_fresh (S := S) d d₁ hframe h
  refine ⟨trivial, fun fault => ?_⟩
  cases fault with
  | true => exact ⟨_, _, rfl, hinv, fun j _ => S.contract.frame_refl j d₁, nofun⟩
  | false =>
    cases hentry : d₁.entry name with
    | some w =>
      exact ⟨_, _, Dir.exec_createNew_of_taken hentry, hinv,
        fun j _ => S.contract.frame_refl j d₁, nofun⟩
    | none =>
      have hfile := Dir.entry_create_of_ne (d := d₁) (i := i) hname.ne_file.symm
      have hlegacy := Dir.entry_create_of_ne (d := d₁) (i := i) hname.ne_legacy.symm
      refine ⟨_, _, Dir.exec_createNew_of_free hentry, hinv.create hname hfresh,
        fun j hj => ⟨Dir.keeps_create hj hentry, fun w hw => ?_, fun hg => ?_⟩, ?_⟩
      · rw [hfile]
        exact hw
      · rw [hlegacy]
        exact hg
      · have howns : Owns i name [] (d₁.create i name) := by
          refine ⟨?_, ?_, ?_⟩
          · rw [Dir.entry_create_self, hfresh.1]
          · rw [← hfresh.1, Dir.content_create_self]
          · rw [hfile]
            exact hfresh.2 fileName 0
        show S.wp i _ (writeAll (.made i (d₁.made i)) (c.pieces contents.toList) >>= _) _
        rw [hfresh.1]
        apply Contract.wp_bind
        apply Contract.wp_mono _ (writeAll_spec howns)
        intro r d' hr
        cases r with
        | error e => nofun
        | ok u =>
          have howns' := hr rfl
          rw [c.flatten_pieces, List.nil_append] at howns'
          refine Contract.wp_silent (fun fault _ => by cases fault <;> rfl) fun d₂ hframe₂ _ => ?_
          exact ⟨trivial, fun _ _ => stable_owns (S := S) d' d₂ hframe₂ howns'⟩

/-- The temp name goes, and the password file stays. -/
theorem remove_spec {name : String} {w : Inode ι} (hname : Temporary name)
    (hentry : d.entry name = some (.made i 0)) (hw : d.entry fileName = some w) :
    S.wp i (fun _ d' => d'.entry fileName = some w) (remove name) d := by
  apply Contract.wp_op
  intro d₁ hframe hinv
  have hentry₁ := (hframe.keeps.entries name 0).mpr hentry
  have hw₁ := hframe.settled w hw
  refine ⟨trivial, fun fault => ?_⟩
  cases fault with
  | true => exact ⟨_, _, rfl, hinv, fun j _ => S.contract.frame_refl j d₁, hw₁⟩
  | false =>
    have hfile := @Dir.entry_enter_of_ne _ d₁ _ _ none hname.ne_file.symm
    have hlegacy := @Dir.entry_enter_of_ne _ d₁ _ _ none hname.ne_legacy.symm
    refine ⟨_, _, Dir.exec_remove_of_entry hentry₁, hinv.enter hname none,
      fun j hj => ⟨?_, fun w' hw' => hfile.trans hw', fun hg => hlegacy.trans hg⟩,
      hfile.trans hw₁⟩
    apply Dir.keeps_enter
    · intro k hk
      rw [hentry₁] at hk
      exact made_ne hj 0 k (Option.some.inj hk)
    · intro k hk
      cases hk

/-- What is returned is in the password file, which is the call's own if it says created. -/
theorem createIfAbsent_spec (hnone : S.files legacyFileName = none) (h : Fresh i d) :
    S.wp i (fun r d' => ∃ w, d'.entry fileName = some w ∧ S.held w = r.1 ∧
        (r.2 = true → ∃ k, w = .made i k))
      (createIfAbsent dir text (S.callers i)) d := by
  have htmp := temporary_tmpName (S.callers i)
  unfold createIfAbsent
  refine Contract.wp_silent (fun _ _ => rfl) fun d₁ hframe hinv => ⟨trivial, fun fault => ?_⟩
  cases fault with
  | true => trivial
  | false =>
    show S.wp i _ (writeNew (S.callers i) _ _ >>= _) d₁
    apply Contract.wp_bind
    apply Contract.wp_mono _ (writeNew_spec _ htmp (stable_fresh (S := S) d d₁ hframe h))
    intro r d₂ hr
    cases r with
    | error e => trivial
    | ok u =>
      have howns := hr rfl
      apply Contract.wp_op
      intro d₃ hframe₃ hinv₃
      have howns₃ := stable_owns (S := S) d₂ d₃ hframe₃ howns
      refine ⟨trivial, fun fault => ?_⟩
      cases hfile : d₃.entry fileName with
      | some w =>
        refine ⟨_, _, Dir.exec_hardLink_of_taken fault howns₃.entry hfile, hinv₃,
          fun j _ => S.contract.frame_refl j d₃, ?_⟩
        show S.wp i _ (remove _ >>= _) d₃
        apply Contract.wp_bind
        apply Contract.wp_mono _ (remove_spec htmp howns₃.entry hfile)
        intro _ d₄ hw
        apply Contract.wp_bind
        apply Contract.wp_mono _ (read_file (L := fun _ => True) (fun _ _ _ _ => trivial) trivial
          (.inr ⟨w, hw⟩))
        intro r d₅ ⟨_, _, hr⟩
        cases r with
        | none => trivial
        | some pw =>
          obtain ⟨hlong, w', hw', hheld⟩ := hr pw rfl
          rw [Option.filter_some_pos hlong]
          exact ⟨w', hw', hheld, nofun⟩
      | none =>
        have hcontent : d₃.content (.made i 0) = S.whole (.made i 0) := howns₃.content
        refine ⟨_, _, Dir.exec_hardLink_of_free fault howns₃.entry hfile,
          hinv₃.link hnone hcontent, fun j hj => ⟨?_, fun w hw => ?_, fun hg => ?_⟩, ?_⟩
        · apply Dir.keeps_enter
          · intro k hk
            rw [hfile] at hk
            cases hk
          · intro k hk
            exact made_ne hj 0 k (Option.some.inj hk)
        · rw [hfile] at hw
          cases hw
        · rw [Dir.entry_enter_of_ne legacy_ne_file]
          exact hg
        · show S.wp i _ (remove _ >>= _) _
          apply Contract.wp_bind
          have hentry := howns₃.entry
          rw [← @Dir.entry_enter_of_ne _ _ _ _ (some (.made i 0)) htmp.ne_file] at hentry
          apply Contract.wp_mono _ (remove_spec htmp hentry Dir.entry_enter_self)
          intro _ d₄ hw
          exact ⟨_, hw, held_made 0, fun _ => ⟨0, rfl⟩⟩

theorem readOrCreate_spec (migrated : Bool) (h : Fresh i d) (hready : S.Ready d) :
    S.wp i (S.Promises i) (readOrCreate dir text (S.callers i) migrated) d := by
  unfold readOrCreate
  apply Contract.wp_bind
  apply Contract.wp_mono _ (read_file (stable_fresh (S := S)) h hready)
  intro r d₁ ⟨hfresh, hmissing, hr⟩
  cases r with
  | none =>
    show S.wp i _ (createIfAbsent dir text _ >>= _) d₁
    apply Contract.wp_bind
    exact createIfAbsent_spec (hmissing rfl) hfresh
  | some pw =>
    obtain ⟨hlong, w, hw, hheld⟩ := hr pw rfl
    show S.wp i _ (if isLong pw then _ else _) d₁
    rw [if_pos hlong]
    exact ⟨w, hw, hheld, nofun⟩

/-- **A call** returns what the password file holds, and says created of its own file only. -/
theorem ensure_spec (h : Fresh i d) :
    S.wp i (S.Promises i) (ensureDashboardPassword dir text (S.callers i)) d := by
  unfold ensureDashboardPassword
  rw [S.unset i]
  show S.wp i _ (migrate dir text >>= _) d
  apply Contract.wp_bind
  apply Contract.wp_mono _ (migrate_spec (stable_fresh (S := S)) h)
  intro r d₁ ⟨hfresh, hready, migrated, hr⟩
  subst hr
  exact readOrCreate_spec migrated hfresh hready

/-! ### Every interleaving -/

variable (S) in
/-- All the calls about to start. -/
def init (dir : String) (text : IoError → String) :
    Sys ι (Dir ι) (Op ι) Resp String (String × Source) :=
  ⟨.ofFiles S.files, fun i => ensureDashboardPassword dir text (S.callers i)⟩

omit [DecidableEq ι] in
theorem inv_init : S.contract.inv (S.init dir text).shared := by
  refine ⟨fun _ => rfl, fun hold => .inl ⟨?_, ?_⟩, fun hnone => ⟨?_, fun w hw => ?_⟩⟩
  · obtain ⟨t, ht⟩ := Option.isSome_iff_exists.mp hold
    show (S.files legacyFileName).map _ = _
    rw [ht]
    rfl
  · show (S.files fileName).map _ = _
    rw [S.noFile]
    rfl
  · show (S.files legacyFileName).map _ = _
    rw [hnone]
    rfl
  · have hfile : (S.files fileName).map (fun _ => Inode.old (ι := ι) fileName) = some w := hw
    rw [S.noFile] at hfile
    cases hfile

omit [DecidableEq ι] in
theorem fresh_init : Fresh i (.ofFiles S.files) := by
  refine ⟨rfl, fun name k hk => ?_⟩
  have hmap : (S.files name).map (fun _ => Inode.old name) = some (Inode.made i k) := hk
  obtain ⟨t, -, ht⟩ := Option.map_eq_some_iff.mp hmap
  cases ht

theorem wp_init (i : ι) :
    S.wp i (S.Promises i) ((S.init dir text).prog i) (S.init dir text).shared :=
  ensure_spec fresh_init

/-- A state that the calls come to, whoever goes first and whoever stops. -/
abbrev Comes (S : Setup ι) (dir : String) (text : IoError → String) (tr : List (ι × Op ι))
    (s : Sys ι (Dir ι) (Op ι) Resp String (String × Source)) : Prop :=
  Reaches (step Dir.exec) anyAction (S.init dir text) tr s

theorem promises_of_ret {tr : List (ι × Op ι)}
    {s : Sys ι (Dir ι) (Op ι) Resp String (String × Source)} (h : S.Comes dir text tr s) {i : ι}
    {r : String × Source} (hr : s.prog i = .ret r) : S.Promises i r s.shared :=
  Contract.ret_of_sound (C := S.contract) (fun _ r => stable_promises r) inv_init wp_init h hr

theorem inv_of_comes {tr : List (ι × Op ι)}
    {s : Sys ι (Dir ι) (Op ι) Resp String (String × Source)} (h : S.Comes dir text tr s) :
    S.Inv s.shared :=
  (Contract.sound (C := S.contract) (fun _ r => stable_promises r) inv_init wp_init h).1

/-- The calls agree on one password. -/
structure Agree (S : Setup ι) (dir : String) (text : IoError → String)
    (s : Sys ι (Dir ι) (Op ι) Resp String (String × Source)) : Prop where
  same : ∀ i j r r', s.prog i = .ret r → s.prog j = .ret r' → r.1 = r'.1
  /-- It is in the password file from now on. -/
  kept : ∀ i r, s.prog i = .ret r → ∀ tr s', Reaches (step Dir.exec) anyAction s tr s' →
    ∃ w, s'.shared.entry fileName = some w ∧ trim (String.ofList (s'.shared.content w)) = r.1
  legacy : ∀ i r contents, s.prog i = .ret r → S.files legacyFileName = some contents →
    r.1 = trim (String.ofList contents)
  once : ∀ i j r r', s.prog i = .ret r → s.prog j = .ret r' → r.2.isCreated = true →
    r'.2.isCreated = true → i = j
  /-- A file is read when it holds all that is written to it. -/
  whole : ∀ i w k, s.prog i = .op (.readToEnd w) k → s.shared.content w = S.whole w

/-- **Every start agrees** on the password, in every interleaving and wherever calls stop. -/
theorem passwords_agree {tr : List (ι × Op ι)}
    {s : Sys ι (Dir ι) (Op ι) Resp String (String × Source)} (h : S.Comes dir text tr s) :
    S.Agree dir text s where
  same i j r r' hr hr' := by
    obtain ⟨w, hw, hheld, -⟩ := promises_of_ret h hr
    obtain ⟨w', hw', hheld', -⟩ := promises_of_ret h hr'
    cases hw.symm.trans hw'
    exact hheld.symm.trans hheld'
  kept i r hr tr' s' h' := by
    have hcomes := h.trans h'
    obtain ⟨w, hw, hheld, -⟩ := promises_of_ret hcomes (ret_of_reaches h' hr)
    refine ⟨w, hw, ?_⟩
    rw [((inv_of_comes hcomes).of_entry hw).1]
    exact hheld
  legacy i r contents hr hcontents := by
    obtain ⟨w, hw, hheld, -⟩ := promises_of_ret h hr
    rcases (inv_of_comes h).moved (by rw [hcontents]; rfl) with ⟨-, hnone⟩ | ⟨-, hold⟩
    · rw [hnone] at hw
      cases hw
    · cases hold.symm.trans hw
      rw [← hheld, held, Setup.whole, hcontents]
      rfl
  once i j r r' hr hr' hcreated hcreated' := by
    obtain ⟨w, hw, -, hmade⟩ := promises_of_ret h hr
    obtain ⟨w', hw', -, hmade'⟩ := promises_of_ret h hr'
    cases hw.symm.trans hw'
    obtain ⟨k, hk⟩ := hmade hcreated
    obtain ⟨k', hk'⟩ := hmade' hcreated'
    cases hk.symm.trans hk'
    rfl
  whole i w k hop :=
    Contract.needs_of_sound (C := S.contract) (fun _ r => stable_promises r) inv_init wp_init h hop

def exampleCaller (pid : ℕ) : Caller where
  env := some " "
  pid := pid
  password := ⟨List.replicate 32 0, rfl⟩
  suffix := ⟨List.replicate 4 0, rfl⟩
  pieces text := [text]
  flatten_pieces text := by rw [List.flatten_singleton]

/-- Two starts on an empty directory. -/
def twoStarts : Setup Bool where
  callers b := exampleCaller (if b then 1 else 2)
  files _ := none
  unset i := by cases i <;> decide
  noFile := rfl
  legacy_ok := nofun

def bothReturned (r : Sys Bool (Dir Bool) (Op Bool) Resp String (String × Source) ×
    List (Bool × Op Bool)) : Bool :=
  match r.1.prog false, r.1.prog true with
  | .ret a, .ret b => a.2 = .file true false && b.2 = .file false false
  | _, _ => false

theorem passwords_agree_two :
    ∃ tr s, twoStarts.Comes "d" (fun _ => "") tr s ∧ bothReturned (s, tr) = true ∧
      twoStarts.Agree "d" (fun _ => "") s := by
  -- each has written its file before the first of them links it
  obtain ⟨tr, s, hcomes, hreturned⟩ := @exists_of_exec _ _ _ (step Dir.exec) anyAction
    (fun _ _ => true) (fun _ _ _ => trivial)
    ((List.replicate 8 [(false, false), (true, false)]).flatten ++ [(false, false)] ++
      List.replicate 3 (true, false))
    (twoStarts.init "d" fun _ => "") bothReturned (by decide +kernel)
  exact ⟨tr, s, hcomes, hreturned, passwords_agree hcomes⟩

end Setup

end OnchainDataMcp.Transport
