import Bip360Enforcer.Library.Program
import Mathlib.Data.List.Basic

/-!
# A directory of files, some of which outlive a crash

A crash brings back the directory as it has been at some moment since it was flushed, and all that was
flushed of the files; the rest of their content may be anything.
-/

/-- One directory and the files in it, which are numbered. -/
structure FileSystem (ν α : Type) where
  content : Nat → List α
  /-- Whether all of the content has been flushed. -/
  flushed : Nat → Bool
  dir : ν → Option Nat
  /-- What the directory has been since it was flushed. -/
  older : List (ν → Option Nat)
  next : Nat

namespace FileSystem

variable {ν α : Type}

def empty : FileSystem ν α := ⟨fun _ => [], fun _ => true, fun _ => none, [], 0⟩

/-- The directories that a crash may bring back. -/
def versions (fs : FileSystem ν α) : List (ν → Option Nat) := fs.dir :: fs.older

def read (fs : FileSystem ν α) (name : ν) : Option (List α) := (fs.dir name).map fs.content

/-! ## Effects -/

section

variable [DecidableEq ν]

def enter (name : ν) (file : Nat) (dir : ν → Option Nat) : ν → Option Nat := fun other =>
  if other = name then some file else dir other

def leave (name : ν) (dir : ν → Option Nat) : ν → Option Nat := fun other =>
  if other = name then none else dir other

@[simp] theorem enter_self (name : ν) (file : Nat) (dir : ν → Option Nat) :
    enter name file dir name = some file := if_pos rfl

theorem enter_ne {name other : ν} (h : other ≠ name) (file : Nat) (dir : ν → Option Nat) :
    enter name file dir other = dir other := if_neg h

@[simp] theorem leave_self (name : ν) (dir : ν → Option Nat) : leave name dir name = none := if_pos rfl

theorem enter_cases {name other : ν} {file i : Nat} {dir : ν → Option Nat}
    (h : enter name file dir other = some i) : i = file ∨ dir other = some i := by
  by_cases hother : other = name
  · subst hother
    rw [enter_self] at h
    exact .inl (Option.some.inj h).symm
  · rw [enter_ne hother] at h
    exact .inr h

theorem leave_some {name other : ν} {i : Nat} {dir : ν → Option Nat}
    (h : leave name dir other = some i) : dir other = some i := by
  unfold leave at h
  split at h
  · cases h
  · exact h

def setDir (dir : ν → Option Nat) (fs : FileSystem ν α) : FileSystem ν α :=
  { fs with dir := dir, older := fs.versions }

def setContent (file : Nat) (content : List α) (fs : FileSystem ν α) : FileSystem ν α :=
  { fs with
    content := fun i => if i = file then content else fs.content i
    flushed := fun i => i ≠ file && fs.flushed i }

/-- Open a file to write it anew: the file, and what becomes of the directory. -/
def create (name : ν) (fs : FileSystem ν α) : Nat × FileSystem ν α :=
  match fs.dir name with
  | some file => (file, fs.setContent file [])
  | none => (fs.next, ({ fs with next := fs.next + 1 }.setContent fs.next []).setDir
      (enter name fs.next fs.dir))

def append (file : Nat) (data : List α) (fs : FileSystem ν α) : FileSystem ν α :=
  fs.setContent file (fs.content file ++ data)

/-- A file that is opened and written holds what was written. -/
theorem read_append_create (name : ν) (data : List α) (fs : FileSystem ν α) :
    ((fs.create name).2.append (fs.create name).1 data).read name = some data := by
  cases hfile : fs.dir name with
  | some file => simp [create, append, setContent, read, hfile]
  | none => simp [create, append, setContent, setDir, read, hfile]

def flush (file : Nat) (fs : FileSystem ν α) : FileSystem ν α :=
  { fs with flushed := fun i => i = file || fs.flushed i }

/-- Put a file in the place of another one. -/
def rename (source target : ν) (fs : FileSystem ν α) : FileSystem ν α :=
  match fs.dir source with
  | none => fs
  | some file => fs.setDir (enter target file (leave source fs.dir))

def flushDir (fs : FileSystem ν α) : FileSystem ν α := { fs with older := [] }

end

/-- The directory of the given version comes back. -/
def crash (version : Nat) (garbage : Nat → List α) (fs : FileSystem ν α) : FileSystem ν α where
  content i := if fs.flushed i then fs.content i else garbage i
  flushed _ := true
  dir := (fs.versions[version]?).getD fs.dir
  older := []
  next := fs.next

end FileSystem

/-! ## Programs -/

inductive FileError where
  | io
  | notFound
  /-- The machine has crashed, which no program sees. -/
  | crashed
  deriving DecidableEq, Repr

inductive FileFault (α : Type) where
  | none
  /-- An operation fails, after it has come that far. -/
  | fails (extent : Nat)
  /-- The machine crashes when an operation has come that far. -/
  | crash (extent version : Nat) (garbage : Nat → List α)

/-- A directory, and what goes wrong from here on. -/
structure Machine (ν α : Type) where
  fs : FileSystem ν α
  faults : Nat → FileFault α

namespace Machine

variable {ν α β ε ε' : Type}

def moveTo (s : Machine ν α) (fs : FileSystem ν α) : Machine ν α := ⟨fs, fun n => s.faults (n + 1)⟩

/-- An operation with its effect, and the effect it has where it fails. -/
def operation (run : FileSystem ν α → Except FileError β × FileSystem ν α)
    (partly : Nat → FileSystem ν α → FileSystem ν α) : Program (Machine ν α) FileError β := fun s =>
  match s.faults 0 with
  | .none => ((run s.fs).1, s.moveTo (run s.fs).2)
  | .fails extent => (.error .io, s.moveTo (partly extent s.fs))
  | .crash extent version garbage => (.error .crashed, s.moveTo ((partly extent s.fs).crash version garbage))

/-- The effect of an operation that fails before or after it has taken place. -/
def atOnce (effect : FileSystem ν α → FileSystem ν α) (extent : Nat) (fs : FileSystem ν α) :
    FileSystem ν α := if extent = 0 then fs else effect fs

/-- An operation on files that exist. -/
def effectful (effect : FileSystem ν α → FileSystem ν α) : Program (Machine ν α) FileError Unit :=
  operation (fun fs => (.ok (), effect fs)) (atOnce effect)

def nothing : Program (Machine ν α) FileError Unit := effectful id

/-- A failure leaves the file with the first part of the data. -/
def writeAll (file : Nat) (data : List α) : Program (Machine ν α) FileError Unit :=
  operation (fun fs => (.ok (), fs.append file data)) fun extent fs => fs.append file (data.take extent)

section

variable [DecidableEq ν]

def openFile (name : ν) : Program (Machine ν α) FileError Nat :=
  operation (fun fs => (.ok (fs.create name).1, (fs.create name).2)) (atOnce fun fs => (fs.create name).2)

def syncAll (file : Nat) : Program (Machine ν α) FileError Unit := effectful (FileSystem.flush file)

def renameFile (source target : ν) : Program (Machine ν α) FileError Unit :=
  operation (fun fs => match fs.dir source with
    | none => (.error .notFound, fs)
    | some _ => (.ok (), fs.rename source target)) (atOnce (FileSystem.rename source target))

def syncDir : Program (Machine ν α) FileError Unit := effectful FileSystem.flushDir

end

def readFile (name : ν) : Program (Machine ν α) FileError (List α) :=
  operation (fun fs => match fs.read name with
    | none => (.error .notFound, fs)
    | some content => (.ok content, fs)) fun _ fs => fs

/-- `Path::exists`, which does not tell a failure from a missing file. -/
def pathExists (name : ν) : Program (Machine ν α) FileError Bool := fun s =>
  match s.faults 0 with
  | .none => (.ok (s.fs.dir name).isSome, s.moveTo s.fs)
  | .fails _ => (.ok false, s.moveTo s.fs)
  | .crash _ version garbage => (.error .crashed, s.moveTo (s.fs.crash version garbage))

end Machine
