import OnchainDataMcp.Config.Settings
import OnchainDataMcp.Lib.Fallible

/-!
# Editing the configuration files

An edit sets or removes one value of `config.toml` or `secrets.toml`.  All edits are applied to both
documents in memory, the result is loaded to validate it, and only then the files are written, each
through a temporary file.

* `setPath` — one edit of a document;
* `planEdits` — the new texts and what they load to;
* `writeAtomic` — one file, by a sequence of operations any of which may fail;
* `applyEdits` — plan and write.

TOML itself is a parameter: how a text is parsed into tables, printed again and read by the loader.
-/

namespace OnchainDataMcp.Config

open OnchainDataMcp.Lib

/-! ### Documents -/

/-- `serde_json::Value`. -/
inductive Json
  | null
  | bool (b : Bool)
  /-- A number with its text, and its value where it fits in 64 bits. -/
  | number (asI64 : Option ℤ) (text : String)
  | string (s : String)
  | array (items : List Json)
  | object (fields : List (String × Json))

/-- A value of a TOML document; `other` is what edits never write. -/
inductive Value
  | boolean (b : Bool)
  | integer (n : ℤ)
  | string (s : String)
  | array (items : List Value)
  | inlineTable (fields : List (String × Value))
  | other (text : String)

inductive Item
  | value (v : Value)
  | table (fields : List (String × Item))
  | arrayOfTables (tables : List (List (String × Item)))

abbrev Table := List (String × Item)

/-- Put an entry in a table, in its place or at the end. -/
def insertField {α : Type} : List (String × α) → String → α → List (String × α)
  | [], k, v => [(k, v)]
  | (k', v') :: rest, k, v =>
    if k' = k then (k, v) :: rest else (k', v') :: insertField rest k v

mutual

def toValue : Json → Except String Value
  | .bool b => .ok (.boolean b)
  | .number asI64 text =>
    match asI64 with
    | some i => .ok (.integer i)
    | none => .error ("unsupported number " ++ text)
  | .string s => .ok (.string s)
  | .array items => do .ok (.array (← toValues items))
  | .object fields => do .ok (.inlineTable (← toFields fields))
  | .null => .error "null is not a TOML value; use removal"

def toValues : List Json → Except String (List Value)
  | [] => .ok []
  | i :: items => do .ok ((← toValue i) :: (← toValues items))

def toFields : List (String × Json) → Except String (List (String × Value))
  | [] => .ok []
  | (k, v) :: fields => do .ok ((k, ← toValue v) :: (← toFields fields))

end

mutual

def toItem : Json → Except String Item
  | .object fields => do .ok (.table (← toTable fields))
  | .null => .error "null is not a TOML value; use removal"
  | .bool b => do .ok (.value (← toValue (.bool b)))
  | .number asI64 text => do .ok (.value (← toValue (.number asI64 text)))
  | .string s => do .ok (.value (← toValue (.string s)))
  | .array items => do .ok (.value (← toValue (.array items)))

def toTable : List (String × Json) → Except String Table
  | [] => .ok []
  | (k, v) :: fields => do .ok ((k, ← toItem v) :: (← toTable fields))

end

/-- The table under a key; one that is missing is made, an inline one is made a table. -/
def subTable (table : Table) (seg : String) : Except String Table :=
  match (table.lookup seg).getD (.table []) with
  | .table t => .ok t
  | .value (.inlineTable t) => .ok (t.map fun f => (f.1, .value f.2))
  | _ => .error ("'" ++ seg ++ "' is not a table")

def setPath (table : Table) : List String → Option Json → Except String Table
  | [], _ => .error "empty path"
  | [last], none => .ok (table.filter fun f => f.1 ≠ last)
  | [last], some v => do .ok (insertField table last (← toItem v))
  | seg :: rest, value => do
    let sub ← setPath (← subTable table seg) rest value
    .ok (insertField table seg (.table sub))

/-! ### Loading -/

inductive EditTarget
  | config | secrets
  deriving DecidableEq, Repr

/-- The files of a target in the configuration directory: `config.toml` itself,
`.config.toml.tmp-<pid>` and `config.toml.bak`. -/
inductive FileName
  | file (t : EditTarget)
  | tmp (t : EditTarget)
  | bak (t : EditTarget)
  deriving DecidableEq, Repr

/-- The contents of the files that exist. -/
abbrev Files := FileName → Option String

/-- The libraries that read and write TOML. -/
structure Toml where
  /-- What the text of a document has besides its tables: comments, spacing and order. -/
  Format : Type
  parse : String → Except String (Format × Table)
  print : Format → Table → String
  /-- What the loader reads in a text. -/
  Tree : Type
  read : String → Tree

/-- `ConfigLoader`, with its environment and built-in registry. -/
structure Loader where
  toml : Toml
  /-- Both texts merged under the environment, and the registry with the changes of chains. -/
  extract : toml.Tree → toml.Tree → Except (List Issue) (Settings × Registry)
  /-- Findings about the environment. -/
  envIssues : List Issue
  locked : List (List String × String)
  isSocketAddr : String → Bool
  /-- The path of a file, for messages. -/
  display : EditTarget → String

/-- Load from explicit file contents. -/
def Loader.loadTexts (L : Loader) (config secrets : String) : Except (List Issue) Loaded :=
  match L.extract (L.toml.read config) (L.toml.read secrets) with
  | .error issues => .error (L.envIssues ++ issues)
  | .ok (settings, registry) =>
    let loaded : Loaded := { settings, registry, locked := L.locked }
    let issues := L.envIssues ++ loaded.validate L.isSocketAddr
    let (errors, warnings) := issues.partition fun i => i.severity = .error
    if errors = [] then .ok { loaded with warnings } else .error (errors ++ warnings)

/-- `ConfigDir::read`: a file that does not exist is empty. -/
def textOf (files : Files) (t : EditTarget) : String := (files (.file t)).getD ""

def Loader.load (L : Loader) (files : Files) : Except (List Issue) Loaded :=
  L.loadTexts (textOf files .config) (textOf files .secrets)

/-- If `path` (or a parent/child of it) is set by env, the env var responsible. -/
def Loaded.lockedBy (l : Loaded) (path : List String) : Option String :=
  (l.locked.find? fun e => (e.1.zip path).all fun p => p.1 = p.2).map Prod.snd

/-! ### Faults -/

/-- The operations on one file while edits are applied, each done at most once. -/
inductive FileOp
  | read | createDirAll | create | setMode | writeAll | syncAll | exists | copy | setBakMode | rename
  deriving DecidableEq, Repr

/-- A failed operation: what it says, and what it leaves in the file it was writing. -/
structure Fault where
  message : String
  left : Option String
  deriving DecidableEq, Repr

/-- Which operations fail. -/
abbrev Faults := EditTarget → FileOp → Option Fault

/-- An operation on files that writes `written`, if any. -/
def operate (fault : Option Fault) (written : Option FileName) (done : Files → Files) :
    Fallible Files String Unit := fun files =>
  match fault with
  | none => (.ok (), done files)
  | some f =>
    (.error f.message, written.elim files fun name => Function.update files name f.left)

/-! ### Planning and writing -/

/-- Set (`some`) or remove (`none`) the value at `path`. -/
structure Edit where
  path : List String
  value : Option Json

def Edit.target (e : Edit) : EditTarget :=
  if e.path.head? = some "keys" then .secrets else .config

/-- `parse`: the document of a file. -/
def parseFile (L : Loader) (faults : Faults) (files : Files) (t : EditTarget) :
    Except (List Issue) (L.toml.Format × Table) :=
  match faults t .read with
  | some f => .error [.error (L.display t) f.message]
  | none => (L.toml.parse (textOf files t)).mapError fun m => [.error (L.display t) m]

/-- One edit, of the document it belongs to. -/
def editTables (tables : Table × Table) (e : Edit) : Except (List Issue) (Table × Table) :=
  let issue := fun m => [Issue.error (".".intercalate e.path) m]
  match e.target with
  | .config => do .ok (← (setPath tables.1 e.path e.value).mapError issue, tables.2)
  | .secrets => do .ok (tables.1, ← (setPath tables.2 e.path e.value).mapError issue)

/-- Edited file texts and the config they load to. -/
def planEdits (L : Loader) (faults : Faults) (current : Loaded) (edits : List Edit)
    (files : Files) : Except (List Issue) (Loaded × String × String) := do
  let locked := edits.filterMap fun e => (current.lockedBy e.path).map fun var =>
    Issue.error (".".intercalate e.path)
      ("locked by env (" ++ var ++ "); change it in the environment")
  if locked ≠ [] then .error locked
  else if edits.any fun e => e.path = [] then .error [.error "[]" "empty edit path"]
  else
    let (configFormat, config) ← parseFile L faults files .config
    let (secretsFormat, secrets) ← parseFile L faults files .secrets
    let (config, secrets) ← edits.foldlM editTables (config, secrets)
    let configText := L.toml.print configFormat config
    let secretsText := L.toml.print secretsFormat secrets
    let next ← L.loadTexts configText secretsText
    .ok (next, configText, secretsText)

/-- The new contents in a temporary file. -/
def writeTmp (faults : FileOp → Option Fault) (t : EditTarget) (contents : String)
    (mode : Option ℕ) : Fallible Files String Unit := do
  operate (faults .createDirAll) none id
  operate (faults .create) (some (.tmp t)) fun files => Function.update files (.tmp t) (some "")
  Fallible.onlyIf mode.isSome (operate (faults .setMode) none id)
  operate (faults .writeAll) (some (.tmp t)) fun files =>
    Function.update files (.tmp t) (some contents)
  operate (faults .syncAll) none id

/-- `path.exists()`: a file that cannot be looked at counts as missing. -/
def found (faults : FileOp → Option Fault) (t : EditTarget) (files : Files) : Bool :=
  (files (.file t)).isSome && (faults .exists).isNone

/-- The previous file as `<name>.bak`. -/
def backUp (faults : FileOp → Option Fault) (t : EditTarget) (mode : Option ℕ) :
    Fallible Files String Unit := do
  operate (faults .copy) (some (.bak t)) fun files =>
    Function.update files (.bak t) (files (.file t))
  Fallible.onlyIf mode.isSome (operate (faults .setBakMode) none id)

/-- Put the temporary file in the place of the file. -/
def replaceFile (faults : FileOp → Option Fault) (t : EditTarget) (mode : Option ℕ)
    (present : Bool) : Fallible Files String Unit := do
  Fallible.onlyIf present (backUp faults t mode)
  operate (faults .rename) none fun files =>
    Function.update (Function.update files (.file t) (files (.tmp t))) (.tmp t) none

/-- Write via temp file + rename in the same directory; keep the previous file as `<name>.bak`. -/
def writeAtomic (faults : FileOp → Option Fault) (t : EditTarget) (contents : String)
    (mode : Option ℕ) : Fallible Files String Unit := do
  writeTmp faults t contents mode
  let present ← Fallible.look fun files => .ok (found faults t files)
  replaceFile faults t mode present

/-- The mode a file of secrets is kept at. -/
def secretsMode : ℕ := 0o600

/-- Write the file of a target, when an edit is for it. -/
def writeTarget (faults : Faults) (edits : List Edit) (t : EditTarget) (contents : String)
    (mode : Option ℕ) (name : String) : Fallible Files (List Issue) Unit :=
  Fallible.onlyIf (edits.any fun e => e.target = t)
    (Fallible.mapError (fun m => [Issue.error name m]) (writeAtomic (faults t) t contents mode))

/-- Validate `edits` and write them atomically. Returns the new config. -/
def applyEdits (L : Loader) (faults : Faults) (current : Loaded) (edits : List Edit) :
    Fallible Files (List Issue) Loaded := do
  let (next, config, secrets) ← Fallible.look (planEdits L faults current edits)
  writeTarget faults edits .config config none "config.toml"
  writeTarget faults edits .secrets secrets (some secretsMode) "secrets.toml"
  pure next

/-! ### One file -/

/-- The operations of a write, in order. -/
def writeOps (mode : Option ℕ) (present : Bool) : List FileOp :=
  [.createDirAll, .create] ++ (if mode.isSome then [.setMode] else []) ++ [.writeAll, .syncAll] ++
    (if present then .copy :: (if mode.isSome then [.setBakMode] else []) else []) ++ [.rename]

/-- An operation that has to end fails. -/
def WriteFails (faults : FileOp → Option Fault) (t : EditTarget) (mode : Option ℕ)
    (files : Files) : Prop :=
  ∃ op ∈ writeOps mode (found faults t files), faults op ≠ none

/-- The two files themselves. -/
def settled (files : Files) (t : EditTarget) : Option String := files (.file t)

theorem ends_operate {fault : Option Fault} {written : Option FileName} {done : Files → Files}
    {files : Files} : Fallible.Ends (operate fault written done) files ↔ fault = none := by
  cases fault with
  | none => exact iff_of_true rfl rfl
  | some f => exact iff_of_false nofun nofun

/-- An operation keeps what does not depend on the file it writes. -/
theorem operate_keeps {γ : Type} {obs : Files → γ} {fault : Option Fault}
    {written : Option FileName} {done : Files → Files}
    (hwritten : ∀ name ∈ written, ∀ files text, obs (Function.update files name text) = obs files)
    (hdone : ∀ files, obs (done files) = obs files) :
    Fallible.Keeps obs (operate fault written done) := by
  intro files
  cases fault with
  | none => exact hdone files
  | some f =>
    cases written with
    | none => rfl
    | some name => exact hwritten name rfl files f.left

theorem operate_id_keeps {γ : Type} {obs : Files → γ} (fault : Option Fault) :
    Fallible.Keeps obs (operate fault none id) := operate_keeps nofun fun _ => rfl

theorem settled_update_tmp (t : EditTarget) (files : Files) (text : Option String) :
    settled (Function.update files (.tmp t) text) = settled files :=
  funext fun _ => Function.update_of_ne (by simp) _ _

theorem settled_update_bak (t : EditTarget) (files : Files) (text : Option String) :
    settled (Function.update files (.bak t) text) = settled files :=
  funext fun _ => Function.update_of_ne (by simp) _ _

theorem writeTmp_keeps (faults : FileOp → Option Fault) (t : EditTarget) (contents : String)
    (mode : Option ℕ) : Fallible.Keeps settled (writeTmp faults t contents mode) := by
  have htmp : ∀ name ∈ some (FileName.tmp t), ∀ files text,
      settled (Function.update files name text) = settled files := by
    intro name hname
    obtain rfl := Option.some.inj hname
    exact settled_update_tmp t
  refine (operate_id_keeps _).bind fun _ => ?_
  refine (operate_keeps htmp fun files => settled_update_tmp t files _).bind fun _ => ?_
  refine (operate_id_keeps _).onlyIf.bind fun _ => ?_
  refine (operate_keeps htmp fun files => settled_update_tmp t files _).bind fun _ => ?_
  exact operate_id_keeps _

/-- The backup is the only file that backing up writes. -/
theorem backUp_keeps {γ : Type} {obs : Files → γ} (faults : FileOp → Option Fault) (t : EditTarget)
    (mode : Option ℕ)
    (hbak : ∀ files text, obs (Function.update files (.bak t) text) = obs files) :
    Fallible.Keeps obs (backUp faults t mode) := by
  refine (operate_keeps (fun name hname => ?_) fun files => hbak files _).bind fun _ => ?_
  · obtain rfl := Option.some.inj hname
    exact hbak
  · exact (operate_id_keeps _).onlyIf

/-- When all operations of the temporary file go well, it holds the new contents. -/
theorem writeTmp_spec (faults : FileOp → Option Fault) (t : EditTarget) (contents : String)
    (mode : Option ℕ) (files : Files) :
    (Fallible.Ends (writeTmp faults t contents mode) files ↔
      faults .createDirAll = none ∧ faults .create = none ∧
        (mode.isSome = true → faults .setMode = none) ∧ faults .writeAll = none ∧
        faults .syncAll = none) ∧
    (Fallible.Ends (writeTmp faults t contents mode) files →
      (Fallible.exec (writeTmp faults t contents mode) files).2 (.tmp t) = some contents) := by
  constructor
  · simp only [writeTmp, Fallible.ends_seq, Fallible.ends_onlyIf, ends_operate]
  · intro h
    have hsteps := h
    simp only [writeTmp, Fallible.ends_seq] at hsteps
    obtain ⟨hdir, hcreate, hmode, hwrite, hsync⟩ := hsteps
    unfold writeTmp
    rw [Fallible.exec_seq hdir, Fallible.exec_seq hcreate, Fallible.exec_seq hmode,
      Fallible.exec_seq hwrite]
    rw [ends_operate] at hwrite hsync
    rw [hwrite, hsync]
    exact Function.update_self _ _ _

/-- Replacing a file whose new contents are there. -/
theorem replaceFile_spec (faults : FileOp → Option Fault) (t : EditTarget) (mode : Option ℕ)
    (present : Bool) {files : Files} {contents : String} (htmp : files (.tmp t) = some contents) :
    (Fallible.Ends (replaceFile faults t mode present) files ↔
      (present = true → faults .copy = none ∧ (mode.isSome = true → faults .setBakMode = none)) ∧
        faults .rename = none) ∧
    (Fallible.Ends (replaceFile faults t mode present) files →
      settled (Fallible.exec (replaceFile faults t mode present) files).2
        = Function.update (settled files) t (some contents)) ∧
    (¬Fallible.Ends (replaceFile faults t mode present) files →
      settled (Fallible.exec (replaceFile faults t mode present) files).2 = settled files) := by
  have hsettled : settled (Fallible.exec (Fallible.onlyIf present (backUp faults t mode)) files).2
      = settled files :=
    (backUp_keeps faults t mode fun files text => settled_update_bak t files text).onlyIf files
  have hkeeps : Fallible.Keeps (fun files : Files => files (.tmp t)) (backUp faults t mode) :=
    backUp_keeps faults t mode fun files text => Function.update_of_ne (by simp) _ _
  have hkept : (Fallible.exec (Fallible.onlyIf present (backUp faults t mode)) files).2 (.tmp t)
      = some contents := (hkeeps.onlyIf files).trans htmp
  have hends : Fallible.Ends (replaceFile faults t mode present) files ↔
      (present = true → faults .copy = none ∧ (mode.isSome = true → faults .setBakMode = none)) ∧
        faults .rename = none := by
    simp only [replaceFile, backUp, Fallible.ends_seq, Fallible.ends_onlyIf, ends_operate]
  refine ⟨hends, fun h => ?_, fun h => ?_⟩
  · obtain ⟨hbackup, hrename⟩ := Fallible.ends_seq.mp h
    rw [replaceFile, Fallible.exec_seq hbackup, ends_operate.mp hrename]
    generalize (Fallible.exec (Fallible.onlyIf present (backUp faults t mode)) files).2 = files₁
      at hsettled hkept
    rw [← hsettled]
    show settled (Function.update (Function.update files₁ (.file t) (files₁ (.tmp t))) (.tmp t) none)
      = _
    rw [settled_update_tmp, hkept]
    funext u
    by_cases hu : u = t
    · rw [hu, Function.update_self]
      exact Function.update_self _ _ _
    · rw [Function.update_of_ne hu]
      exact Function.update_of_ne (by simpa using hu) _ _
  · by_cases hbackup : Fallible.Ends (Fallible.onlyIf present (backUp faults t mode)) files
    · cases hrename : faults .rename with
      | none => exact absurd (Fallible.ends_seq.mpr ⟨hbackup, ends_operate.mpr hrename⟩) h
      | some f =>
        rw [replaceFile, Fallible.exec_seq hbackup, hrename]
        exact hsettled
    · rw [replaceFile, Fallible.exec_seq_stopped hbackup]
      exact hsettled

/-- **One write.**  It ends unless one of its operations fails; then the file holds the new contents
and the other file what it held.  When it stops, both hold what they held. -/
theorem writeAtomic_spec (faults : FileOp → Option Fault) (t : EditTarget) (contents : String)
    (mode : Option ℕ) (files : Files) :
    (Fallible.Ends (writeAtomic faults t contents mode) files ↔ ¬WriteFails faults t mode files) ∧
    (Fallible.Ends (writeAtomic faults t contents mode) files →
      settled (Fallible.exec (writeAtomic faults t contents mode) files).2
        = Function.update (settled files) t (some contents)) ∧
    (¬Fallible.Ends (writeAtomic faults t contents mode) files →
      settled (Fallible.exec (writeAtomic faults t contents mode) files).2 = settled files) := by
  have hops : ¬WriteFails faults t mode files ↔
      (faults .createDirAll = none ∧ faults .create = none ∧
        (mode.isSome = true → faults .setMode = none) ∧ faults .writeAll = none ∧
        faults .syncAll = none) ∧
      (found faults t files = true →
        faults .copy = none ∧ (mode.isSome = true → faults .setBakMode = none)) ∧
      faults .rename = none := by
    unfold WriteFails writeOps
    cases mode.isSome <;> cases found faults t files <;> simp [and_assoc]
  obtain ⟨htmp, hcontents⟩ := writeTmp_spec faults t contents mode files
  have hkept := writeTmp_keeps faults t contents mode files
  rw [hops, ← htmp]
  by_cases hends : Fallible.Ends (writeTmp faults t contents mode) files
  · have hsome := hcontents hends
    have hexec : Fallible.exec (writeAtomic faults t contents mode) files
        = Fallible.exec (replaceFile faults t mode (found faults t files))
          (Fallible.exec (writeTmp faults t contents mode) files).2 := by
      rw [writeAtomic, Fallible.exec_seq hends]
      have hfound : found faults t (Fallible.exec (writeTmp faults t contents mode) files).2
          = found faults t files :=
        congrArg (fun text => Option.isSome text && (faults .exists).isNone) (congrFun hkept t)
      exact Fallible.exec_look_bind (f := fun files => .ok (found faults t files))
        (congrArg Except.ok hfound) _
    obtain ⟨hreplace, hnew, hold⟩ :=
      replaceFile_spec faults t mode (found faults t files) hsome
    rw [hkept] at hnew hold
    rw [Fallible.Ends, hexec]
    exact ⟨hreplace.trans (and_iff_right hends).symm, hnew, hold⟩
  · have hstopped : ¬Fallible.Ends (writeAtomic faults t contents mode) files := fun h =>
      hends (Fallible.ends_seq.mp h).1
    refine ⟨iff_of_false hstopped fun h => hends h.1, fun h => absurd h hstopped, fun _ => ?_⟩
    rw [writeAtomic, Fallible.exec_seq_stopped hends]
    exact hkept

/-! ### Both files -/

/-- What an edit promises: an error leaves both files as they were, and the configuration returned
is the one that both files load to. -/
def KeepsPromise (L : Loader) (before : Files) (r : Except (List Issue) Loaded × Files) : Prop :=
  match r.1 with
  | .error _ => settled r.2 = settled before
  | .ok next => L.load r.2 = .ok next

/-- The edits change both files, the new `config.toml` gets written, and `secrets.toml` does not. -/
def HalfWritten (L : Loader) (faults : Faults) (current : Loaded) (edits : List Edit)
    (files : Files) : Prop :=
  (∃ e ∈ edits, e.target = .config) ∧ (∃ e ∈ edits, e.target = .secrets) ∧
    (∃ next config secrets,
      planEdits L faults current edits files = .ok (next, config, secrets) ∧
        files (.file .config) ≠ some config) ∧
    ¬WriteFails (faults .config) .config none files ∧
    WriteFails (faults .secrets) .secrets (some secretsMode) files

/-- The loader reads a document that is parsed and printed again as it reads the text itself. -/
def Toml.Faithful (toml : Toml) : Prop :=
  ∀ text doc, toml.parse text = .ok doc → toml.read (toml.print doc.1 doc.2) = toml.read text

/-- Edits for one document leave the other. -/
theorem foldlM_editTables {edits : List Edit} {tables tables' : Table × Table}
    (h : edits.foldlM editTables tables = .ok tables') :
    ((¬∃ e ∈ edits, e.target = .config) → tables'.1 = tables.1) ∧
      ((¬∃ e ∈ edits, e.target = .secrets) → tables'.2 = tables.2) := by
  induction edits generalizing tables with
  | nil =>
    obtain rfl := Except.ok.inj h
    exact ⟨fun _ => rfl, fun _ => rfl⟩
  | cons e edits ih =>
    rw [List.foldlM_cons] at h
    obtain ⟨mid, he, h⟩ := bind_eq_ok.mp h
    obtain ⟨hconfig, hsecrets⟩ := ih h
    have hone : (e.target ≠ .config → mid.1 = tables.1) ∧
        (e.target ≠ .secrets → mid.2 = tables.2) := by
      unfold editTables at he
      cases htarget : e.target with
      | config =>
        rw [htarget] at he
        obtain ⟨table, _, he⟩ := bind_eq_ok.mp he
        obtain rfl := Except.ok.inj he
        exact ⟨fun hne => absurd rfl hne, fun _ => rfl⟩
      | secrets =>
        rw [htarget] at he
        obtain ⟨table, _, he⟩ := bind_eq_ok.mp he
        obtain rfl := Except.ok.inj he
        exact ⟨fun _ => rfl, fun hne => absurd rfl hne⟩
    have hrest : ∀ t, (¬∃ e' ∈ e :: edits, e'.target = t) →
        e.target ≠ t ∧ ¬∃ e' ∈ edits, e'.target = t := by
      intro t hnone
      refine ⟨fun htarget => hnone ⟨e, List.mem_cons_self, htarget⟩, ?_⟩
      exact fun ⟨e', he', htarget⟩ => hnone ⟨e', List.mem_cons_of_mem _ he', htarget⟩
    constructor
    · intro hnone
      obtain ⟨hne, hnone⟩ := hrest _ hnone
      exact (hconfig hnone).trans (hone.1 hne)
    · intro hnone
      obtain ⟨hne, hnone⟩ := hrest _ hnone
      exact (hsecrets hnone).trans (hone.2 hne)

theorem parseFile_eq_ok {L : Loader} {faults : Faults} {files : Files} {t : EditTarget}
    {doc : L.toml.Format × Table} (h : parseFile L faults files t = .ok doc) :
    L.toml.parse (textOf files t) = .ok doc := by
  unfold parseFile at h
  split at h
  · cases h
  · exact mapError_eq_ok.mp h

/-- **What a plan says.**  It loads to the configuration it returns, also with the present text of a
file that no edit is for. -/
theorem planEdits_spec {L : Loader} (hprint : L.toml.Faithful) {faults : Faults} {current : Loaded}
    {edits : List Edit} {files : Files} {next : Loaded} {config secrets : String}
    (h : planEdits L faults current edits files = .ok (next, config, secrets)) :
    L.loadTexts (if ∃ e ∈ edits, e.target = .config then config else textOf files .config)
      (if ∃ e ∈ edits, e.target = .secrets then secrets else textOf files .secrets) = .ok next := by
  simp only [planEdits] at h
  split_ifs at h
  obtain ⟨⟨configFormat, configTable⟩, hconfig, h⟩ := bind_eq_ok.mp h
  obtain ⟨⟨secretsFormat, secretsTable⟩, hsecrets, h⟩ := bind_eq_ok.mp h
  obtain ⟨⟨configTable', secretsTable'⟩, htables, h⟩ := bind_eq_ok.mp h
  obtain ⟨loaded, hload, h⟩ := bind_eq_ok.mp h
  obtain ⟨rfl, htexts⟩ := Prod.mk.inj (Except.ok.inj h)
  obtain ⟨rfl, rfl⟩ := Prod.mk.inj htexts
  obtain ⟨hfst, hsnd⟩ := foldlM_editTables htables
  have hconfigRead : L.toml.read (if ∃ e ∈ edits, e.target = .config
      then L.toml.print configFormat configTable' else textOf files .config)
        = L.toml.read (L.toml.print configFormat configTable') := by
    split_ifs with hedit
    · rfl
    · rw [show configTable' = configTable from hfst hedit]
      exact (hprint _ _ (parseFile_eq_ok hconfig)).symm
  have hsecretsRead : L.toml.read (if ∃ e ∈ edits, e.target = .secrets
      then L.toml.print secretsFormat secretsTable' else textOf files .secrets)
        = L.toml.read (L.toml.print secretsFormat secretsTable') := by
    split_ifs with hedit
    · rfl
    · rw [show secretsTable' = secretsTable from hsnd hedit]
      exact (hprint _ _ (parseFile_eq_ok hsecrets)).symm
  rw [Loader.loadTexts, hconfigRead, hsecretsRead]
  exact hload

theorem keepsPromise_of_stopped {L : Loader} {before files : Files}
    {m : Fallible Files (List Issue) Loaded} (h : ¬Fallible.Ends m files) :
    KeepsPromise L before (Fallible.exec m files) ↔
      settled (Fallible.exec m files).2 = settled before := by
  unfold Fallible.Ends at h
  unfold KeepsPromise
  cases hr : (Fallible.exec m files).1 with
  | ok next =>
    rw [hr] at h
    exact absurd rfl h
  | error issues => exact Iff.rfl

/-- A write asks of the file only whether it is there. -/
theorem writeFails_congr {faults : FileOp → Option Fault} {t : EditTarget} {mode : Option ℕ}
    {files files' : Files} (h : settled files t = settled files' t) :
    WriteFails faults t mode files ↔ WriteFails faults t mode files' := by
  have hfound : found faults t files = found faults t files' :=
    congrArg (fun text => Option.isSome text && (faults .exists).isNone) h
  rw [WriteFails, WriteFails, hfound]

/-- **The write of one target**, made when an edit is for it. -/
theorem writeTarget_spec (faults : Faults) (edits : List Edit) (t : EditTarget)
    (contents : String) (mode : Option ℕ) (name : String) (files : Files) :
    (Fallible.Ends (writeTarget faults edits t contents mode name) files ↔
      ¬((∃ e ∈ edits, e.target = t) ∧ WriteFails (faults t) t mode files)) ∧
    (Fallible.Ends (writeTarget faults edits t contents mode name) files →
      settled (Fallible.exec (writeTarget faults edits t contents mode name) files).2
        = if ∃ e ∈ edits, e.target = t then Function.update (settled files) t (some contents)
          else settled files) ∧
    (¬Fallible.Ends (writeTarget faults edits t contents mode name) files →
      settled (Fallible.exec (writeTarget faults edits t contents mode name) files).2
        = settled files) := by
  have hany : (edits.any fun e => e.target = t) = true ↔ ∃ e ∈ edits, e.target = t := by
    simp only [List.any_eq_true, decide_eq_true_eq]
  obtain ⟨hends, hnew, hold⟩ := writeAtomic_spec (faults t) t contents mode files
  unfold writeTarget
  by_cases hedit : ∃ e ∈ edits, e.target = t
  · rw [hany.mpr hedit, if_pos hedit]
    refine ⟨Fallible.ends_mapError.trans
      (hends.trans (not_congr (and_iff_right hedit).symm)), ?_, ?_⟩
    · intro h
      exact hnew (Fallible.ends_mapError.mp h)
    · intro h
      exact hold fun hwrite => h (Fallible.ends_mapError.mpr hwrite)
  · rw [Bool.eq_false_iff.mpr fun h => hedit (hany.mp h), if_neg hedit]
    exact ⟨iff_of_true rfl fun h => hedit h.1, fun _ => rfl, fun _ => rfl⟩

theorem update_if {P : Prop} [Decidable P] (f : EditTarget → Option String) (t : EditTarget)
    (text : String) (u : EditTarget) :
    (if P then Function.update f t (some text) else f) u
      = if P ∧ u = t then some text else f u := by
  by_cases hP : P
  · rw [if_pos hP, Function.update_apply]
    simp only [hP, true_and]
  · rw [if_neg hP, if_neg fun h => hP h.1]

/-- **When an edit keeps its promise**: always, unless it leaves `config.toml` written and
`secrets.toml` not. -/
theorem applyEdits_keepsPromise_iff {L : Loader} (hprint : L.toml.Faithful) (faults : Faults)
    (current : Loaded) (edits : List Edit) (files : Files) :
    KeepsPromise L files (Fallible.exec (applyEdits L faults current edits) files) ↔
      ¬HalfWritten L faults current edits files := by
  cases hplan : planEdits L faults current edits files with
  | error issues =>
    rw [applyEdits, Fallible.exec_look_stopped hplan]
    refine iff_of_true rfl ?_
    rintro ⟨_, _, ⟨next, config, secrets, hok, _⟩, _⟩
    cases hplan.symm.trans hok
  | ok plan =>
    obtain ⟨next, config, secrets⟩ := plan
    rw [applyEdits, Fallible.exec_look_bind hplan]
    obtain ⟨hends₁, hnew₁, hold₁⟩ :=
      writeTarget_spec faults edits .config config none "config.toml" files
    by_cases h₁ : Fallible.Ends (writeTarget faults edits .config config none "config.toml") files
    · obtain ⟨hends₂, hnew₂, hold₂⟩ := writeTarget_spec faults edits .secrets secrets
        (some secretsMode) "secrets.toml"
        (Fallible.exec (writeTarget faults edits .config config none "config.toml") files).2
      have hsettled := hnew₁ h₁
      have hsame : settled (Fallible.exec (writeTarget faults edits .config config none
          "config.toml") files).2 .secrets = settled files .secrets := by
        rw [hsettled]
        split_ifs
        · exact Function.update_of_ne (by simp) _ _
        · rfl
      rw [writeFails_congr hsame] at hends₂
      rw [Fallible.exec_seq h₁]
      by_cases h₂ : Fallible.Ends (writeTarget faults edits .secrets secrets (some secretsMode)
          "secrets.toml")
          (Fallible.exec (writeTarget faults edits .config config none "config.toml") files).2
      · -- both files are written
        refine iff_of_true ?_ fun hhalf => hends₂.mp h₂ ⟨hhalf.2.1, hhalf.2.2.2.2⟩
        have hload := planEdits_spec hprint hplan
        rw [Fallible.exec_seq h₂, Fallible.exec_pure]
        show L.loadTexts ((settled _ .config).getD "") ((settled _ .secrets).getD "") = .ok next
        rw [hnew₂ h₂, hsettled]
        simp only [update_if]
        rw [← hload]
        congr 1
        · split_ifs <;> simp_all [textOf, settled]
        · split_ifs <;> simp_all [textOf, settled]
      · -- `config.toml` is, if an edit is for it, and `secrets.toml` is not
        have hstopped := Fallible.exec_seq_stopped h₂ fun _ =>
          (pure next : Fallible Files (List Issue) Loaded)
        rw [keepsPromise_of_stopped fun h => h₂ (Fallible.ends_seq.mp h).1, hstopped, hold₂ h₂,
          hsettled]
        obtain ⟨hsecrets, hfails⟩ := not_not.mp fun h => h₂ (hends₂.mpr h)
        by_cases hconfig : ∃ e ∈ edits, e.target = .config
        · rw [if_pos hconfig, Function.update_eq_self_iff]
          have hwritten : ¬WriteFails (faults .config) .config none files := fun hfails =>
            hends₁.mp h₁ ⟨hconfig, hfails⟩
          constructor
          · rintro hsame ⟨_, _, ⟨next', config', secrets', hok, hnew⟩, _⟩
            obtain ⟨-, rfl, -⟩ : next = next' ∧ config = config' ∧ secrets = secrets' := by
              simpa using hplan.symm.trans hok
            exact hnew hsame.symm
          · intro hhalf
            by_contra hnew
            exact hhalf ⟨hconfig, hsecrets, ⟨next, config, secrets, hplan, Ne.symm hnew⟩, hwritten,
              hfails⟩
        · rw [if_neg hconfig]
          exact iff_of_true rfl fun hhalf => hconfig hhalf.1
    · -- nothing is written
      have hstopped := Fallible.exec_seq_stopped h₁ fun _ => do
        writeTarget faults edits .secrets secrets (some secretsMode) "secrets.toml"
        (pure next : Fallible Files (List Issue) Loaded)
      refine iff_of_true ?_ fun hhalf => ?_
      · rw [keepsPromise_of_stopped fun h => h₁ (Fallible.ends_seq.mp h).1, hstopped]
        exact hold₁ h₁
      · exact h₁ (hends₁.mpr fun hfails => hhalf.2.2.2.1 hfails.2)

/-- Documents with one table of one string, enough for the edits below. -/
def editExampleToml : Toml where
  Format := Unit
  parse text := if text = "" then .ok ((), []) else .error "TOML parse error"
  print _ table :=
    match table with
    | [(name, .table [(key, .value (.string s))])] =>
      "[" ++ name ++ "]\n" ++ key ++ " = \"" ++ s ++ "\"\n"
    | _ => ""
  Tree := String
  read := id

/-- A loader without environment that reads the bind address. -/
def editExample : Loader where
  toml := editExampleToml
  extract (config : String) _ :=
    let httpBind := if config = "[server]\nhttp_bind = \"127.0.0.1:9000\"\n" then "127.0.0.1:9000"
      else "127.0.0.1:8787"
    .ok ({ server := { httpBind } }, ⟨fun _ => none, .empty⟩)
  envIssues := []
  locked := []
  isSocketAddr _ := true
  display
    | .config => "config.toml"
    | .secrets => "secrets.toml"

/-- A bind address for `config.toml` and a key for `secrets.toml`. -/
def editExampleEdits : List Edit :=
  [⟨["server", "http_bind"], some (.string "127.0.0.1:9000")⟩,
    ⟨["keys", "alchemy"], some (.string "k")⟩]

/-- One operation on one file that fails. -/
def faultAt (t : EditTarget) (op : FileOp) : Faults := fun t' op' =>
  if t' = t ∧ op' = op then some ⟨"No space left on device", none⟩ else none

/-- Without room for `config.toml` both files stay as they were. -/
theorem applyEdits_keepsPromise_config : KeepsPromise editExample (fun _ => none)
    (Fallible.exec (applyEdits editExample (faultAt .config .create)
      ⟨{}, ⟨fun _ => none, .empty⟩, [], []⟩ editExampleEdits) fun _ => none) :=
  (applyEdits_keepsPromise_iff (L := editExample)
    (fun text doc hdoc => by
      change (if text = "" then Except.ok ((), []) else .error "TOML parse error") = .ok doc at hdoc
      split_ifs at hdoc with hempty
      cases hdoc
      exact hempty.symm) _ _ _ _).mpr
    fun hhalf => hhalf.2.2.2.1 ⟨.create, by decide, by decide⟩

/-- Without room for `secrets.toml` the edit fails and `config.toml` has changed. -/
theorem applyEdits_half_written : ¬KeepsPromise editExample (fun _ => none)
    (Fallible.exec (applyEdits editExample (faultAt .secrets .create)
      ⟨{}, ⟨fun _ => none, .empty⟩, [], []⟩ editExampleEdits) fun _ => none) := by
  intro h
  have hconfig := congrFun (show settled _ = settled _ from h) .config
  cases hconfig

end OnchainDataMcp.Config
