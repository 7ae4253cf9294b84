import Mathlib.Data.Nat.Notation
import Mathlib.Logic.Function.Basic

/-!
# A directory of files

One directory, its entries and the files behind them.  An entry can be moved or linked without
touching the file, so a file is known by where it comes from and not by its name.  A file is only
ever appended to, so what a read to the end gives is the content at the moment it sees the end.

* `Dir` — entries, contents, and how many files each process has made;
* `exec` — one operation; `rename` and `hardLink` are atomic and do what they say, the others may
  also fail without effect;
* `Keeps` — the files that one process made are left alone;
* `keeps_enter` / `keeps_append` / `keeps_create` — what another process may do.
-/

namespace OnchainDataMcp.Lib.Disk

/-- A file: one that was there, by its first name, or the `k`-th one that a process made. -/
inductive Inode (ι : Type)
  | old (name : String)
  | made (i : ι) (k : ℕ)
  deriving DecidableEq, Repr

inductive IoError
  | notFound | alreadyExists | other
  deriving DecidableEq, Repr

inductive Op (ι : Type)
  | pathExists (name : String)
  | rename (name name' : String)
  /-- A new entry for a file, which fails where there is one. -/
  | hardLink (name name' : String)
  | openRead (name : String)
  | readToEnd (file : Inode ι)
  | remove (name : String)
  | createDirAll
  /-- A new file under a name without one. -/
  | createNew (name : String)
  | append (file : Inode ι) (text : List Char)
  | sync (file : Inode ι)
  deriving DecidableEq, Repr

def Resp {ι : Type} : Op ι → Type
  | .pathExists _ => Bool
  | .openRead _ | .createNew _ => Except IoError (Inode ι)
  | .readToEnd _ => Except IoError (List Char)
  | .rename .. | .hardLink .. | .remove _ | .createDirAll | .append .. | .sync _ =>
    Except IoError Unit

structure Dir (ι : Type) where
  entry : String → Option (Inode ι)
  content : Inode ι → List Char
  made : ι → ℕ

namespace Dir

variable {ι : Type}

/-- A directory with these files, nothing made yet. -/
def ofFiles (files : String → Option (List Char)) : Dir ι where
  entry name := (files name).map fun _ => .old name
  content
    | .old name => (files name).getD []
    | .made _ _ => []
  made _ := 0

def enter (d : Dir ι) (name : String) (file : Option (Inode ι)) : Dir ι :=
  { d with entry := Function.update d.entry name file }

/-- The files that `i` made, and their entries, are the same. -/
structure Keeps (i : ι) (d d' : Dir ι) : Prop where
  entries : ∀ name k, d'.entry name = some (.made i k) ↔ d.entry name = some (.made i k)
  content : ∀ k, d'.content (.made i k) = d.content (.made i k)
  made : d'.made i = d.made i

section Entries

variable {d d' d'' : Dir ι} {i : ι} {name name' : String} {file : Option (Inode ι)}

@[simp] theorem entry_enter_self : (d.enter name file).entry name = file :=
  Function.update_self ..

theorem entry_enter_of_ne (h : name' ≠ name) : (d.enter name file).entry name' = d.entry name' :=
  Function.update_of_ne h ..

@[simp] theorem content_enter : (d.enter name file).content = d.content := rfl

@[simp] theorem made_enter : (d.enter name file).made = d.made := rfl

theorem Keeps.refl (i : ι) (d : Dir ι) : Keeps i d d := ⟨fun _ _ => Iff.rfl, fun _ => rfl, rfl⟩

theorem Keeps.trans (h : Keeps i d d') (h' : Keeps i d' d'') : Keeps i d d'' :=
  ⟨fun name k => (h'.entries name k).trans (h.entries name k),
    fun k => (h'.content k).trans (h.content k), h'.made.trans h.made⟩

/-- An entry that is no file of `i` before or after. -/
theorem keeps_enter (hold : ∀ k, d.entry name ≠ some (.made i k))
    (hnew : ∀ k, file ≠ some (.made i k)) : Keeps i d (d.enter name file) := by
  refine ⟨fun name' k => ?_, fun k => rfl, rfl⟩
  by_cases hname : name' = name
  · subst hname
    rw [entry_enter_self]
    exact iff_of_false (hnew k) (hold k)
  · rw [entry_enter_of_ne hname]

end Entries

/-! ### Operations -/

variable [DecidableEq ι]

def append (d : Dir ι) (file : Inode ι) (text : List Char) : Dir ι :=
  { d with content := Function.update d.content file (d.content file ++ text) }

/-- The next file of `i`, empty. -/
def create (d : Dir ι) (i : ι) (name : String) : Dir ι where
  entry := Function.update d.entry name (some (.made i (d.made i)))
  content := Function.update d.content (.made i (d.made i)) []
  made := Function.update d.made i (d.made i + 1)

/-- An operation of `i`, which fails for no reason of the directory's where `fault` says so. -/
def exec (i : ι) (fault : Bool) (d : Dir ι) : (o : Op ι) → Resp o × Dir ι
  | .pathExists name => ((d.entry name).isSome, d)
  | .rename name name' =>
    match d.entry name with
    | none => (.error .notFound, d)
    | some file =>
      -- two names of one file stay
      if d.entry name' = some file then (.ok (), d)
      else (.ok (), (d.enter name' (some file)).enter name none)
  | .hardLink name name' =>
    match d.entry name, d.entry name' with
    | none, _ => (.error .notFound, d)
    | some _, some _ => (.error .alreadyExists, d)
    | some file, none => (.ok (), d.enter name' (some file))
  | .openRead name =>
    if fault then (.error .other, d)
    else
      match d.entry name with
      | none => (.error .notFound, d)
      | some file => (.ok file, d)
  | .readToEnd file => if fault then (.error .other, d) else (.ok (d.content file), d)
  | .remove name =>
    if fault then (.error .other, d)
    else
      match d.entry name with
      | none => (.error .notFound, d)
      | some _ => (.ok (), d.enter name none)
  | .createDirAll | .sync _ => (if fault then .error .other else .ok (), d)
  | .createNew name =>
    if fault then (.error .other, d)
    else
      match d.entry name with
      | some _ => (.error .alreadyExists, d)
      | none => (.ok (.made i (d.made i)), d.create i name)
  | .append file text => if fault then (.error .other, d) else (.ok (), d.append file text)

section Laws

variable {d : Dir ι} {i j : ι} {name : String} {w w' : Inode ι} {text : List Char}

@[simp] theorem entry_append : (d.append w text).entry = d.entry := rfl

@[simp] theorem content_append_self : (d.append w text).content w = d.content w ++ text :=
  Function.update_self ..

theorem content_append_of_ne (h : w' ≠ w) : (d.append w text).content w' = d.content w' :=
  Function.update_of_ne h ..

@[simp] theorem entry_create_self :
    (d.create i name).entry name = some (.made i (d.made i)) := Function.update_self ..

theorem entry_create_of_ne {name' : String} (h : name' ≠ name) :
    (d.create i name).entry name' = d.entry name' := Function.update_of_ne h ..

@[simp] theorem content_create_self : (d.create i name).content (.made i (d.made i)) = [] :=
  Function.update_self ..

theorem content_create_of_ne (h : w ≠ .made i (d.made i)) :
    (d.create i name).content w = d.content w := Function.update_of_ne h ..

theorem snd_exec_openRead (fault : Bool) : (exec i fault d (.openRead name)).2 = d := by
  simp only [exec]
  split
  · rfl
  · split <;> rfl

theorem snd_exec_readToEnd (fault : Bool) : (exec i fault d (.readToEnd w)).2 = d := by
  cases fault <;> rfl

theorem exec_openRead_of_missing (h : d.entry name = none) :
    exec i false d (.openRead name) = (.error .notFound, d) := by
  simp only [exec, h, Bool.false_eq_true, if_false]

theorem exec_openRead_of_entry (h : d.entry name = some w) :
    exec i false d (.openRead name) = (.ok w, d) := by
  simp only [exec, h, Bool.false_eq_true, if_false]

theorem exec_remove_of_entry (h : d.entry name = some w) :
    exec i false d (.remove name) = (.ok (), d.enter name none) := by
  simp only [exec, h, Bool.false_eq_true, if_false]

theorem exec_createNew_of_taken (h : d.entry name = some w) :
    exec i false d (.createNew name) = (.error .alreadyExists, d) := by
  simp only [exec, h, Bool.false_eq_true, if_false]

theorem exec_createNew_of_free (h : d.entry name = none) :
    exec i false d (.createNew name) = (.ok (.made i (d.made i)), d.create i name) := by
  simp only [exec, h, Bool.false_eq_true, if_false]

theorem exec_rename_of_missing {name' : String} (fault : Bool) (h : d.entry name = none) :
    exec i fault d (.rename name name') = (.error .notFound, d) := by
  simp only [exec, h]

theorem exec_rename_of_ne {name' : String} (fault : Bool) (h : d.entry name = some w)
    (h' : d.entry name' ≠ some w) :
    exec i fault d (.rename name name') = (.ok (), (d.enter name' (some w)).enter name none) := by
  simp only [exec, h, if_neg h']

theorem exec_hardLink_of_taken {name' : String} (fault : Bool) (h : d.entry name = some w)
    (h' : d.entry name' = some w') :
    exec i fault d (.hardLink name name') = (.error .alreadyExists, d) := by
  simp only [exec, h, h']

theorem exec_hardLink_of_free {name' : String} (fault : Bool) (h : d.entry name = some w)
    (h' : d.entry name' = none) :
    exec i fault d (.hardLink name name') = (.ok (), d.enter name' (some w)) := by
  simp only [exec, h, h']

theorem keeps_append (hw : ∀ k, w ≠ .made i k) : Keeps i d (d.append w text) :=
  ⟨fun _ _ => Iff.rfl, fun k => content_append_of_ne (hw k).symm, rfl⟩

theorem keeps_create (hne : i ≠ j) (hfree : d.entry name = none) :
    Keeps i d (d.create j name) := by
  have hfile : ∀ k, Inode.made i k ≠ .made j (d.made j) := by
    intro k heq
    cases heq
    exact hne rfl
  refine ⟨fun name' k => ?_, fun k => content_create_of_ne (hfile k), Function.update_of_ne hne ..⟩
  by_cases hname : name' = name
  · subst hname
    rw [entry_create_self, hfree]
    exact iff_of_false (fun h => hfile k (Option.some.inj h).symm) (fun h => (by cases h))
  · rw [entry_create_of_ne hname]

end Laws

end Dir

end OnchainDataMcp.Lib.Disk
