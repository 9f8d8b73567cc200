import Bip360Enforcer.Library.FileSystem

/-!
# Files that are never found half-written

A file is replaced by another one, which is prepared under a temporary name and flushed before it is renamed.
-/

open Program (wp)

variable {ν α β γ ε ε' : Type}

namespace FileSystem

/-- What is read of `target` satisfies `P`, now and after a crash. -/
structure Sound (temp target : ν) (P : Option (List α) → Prop) (fs : FileSystem ν α) : Prop where
  fresh : ∀ dir ∈ fs.versions, ∀ name file, dir name = some file → file < fs.next
  /-- What is prepared is not in place yet. -/
  apart : ∀ dir ∈ fs.versions, ∀ file, dir temp = some file → dir target ≠ some file
  unused : ∀ dir ∈ fs.versions, ∀ file, fs.dir temp = some file → dir target ≠ some file
  holds : ∀ dir ∈ fs.versions, P ((dir target).map fs.content)
  flushed : ∀ dir ∈ fs.versions, ∀ file, dir target = some file → fs.flushed file = true

namespace Sound

variable {temp target : ν} {P Q : Option (List α) → Prop} {fs : FileSystem ν α} {file : Nat}

theorem empty (h : P none) : Sound temp target P (.empty : FileSystem ν α) where
  fresh dir hdir name file hfile := by
    obtain rfl := List.mem_singleton.mp hdir
    cases hfile
  apart dir hdir file hfile := by
    obtain rfl := List.mem_singleton.mp hdir
    cases hfile
  unused dir hdir file hfile := by cases hfile
  holds dir hdir := by
    obtain rfl := List.mem_singleton.mp hdir
    exact h
  flushed dir hdir file hfile := rfl

theorem mono (h : Sound temp target P fs) (hPQ : ∀ c, P c → Q c) : Sound temp target Q fs :=
  ⟨h.fresh, h.apart, h.unused, fun dir hdir => hPQ _ (h.holds dir hdir), h.flushed⟩

theorem read (h : Sound temp target P fs) : P (fs.read target) := h.holds fs.dir List.mem_cons_self

theorem map_setContent {found : Option Nat} (h : found ≠ some file) (content : List α) :
    found.map (fs.setContent file content).content = found.map fs.content := by
  cases found with
  | none => rfl
  | some other =>
      have hne : other ≠ file := fun heq => h (congrArg some heq)
      exact congrArg some (if_neg hne)

/-- The content of files that are not in place does not matter. -/
theorem setContent (h : Sound temp target P fs) (hfile : ∀ dir ∈ fs.versions, dir target ≠ some file)
    (content : List α) : Sound temp target P (fs.setContent file content) where
  fresh := h.fresh
  apart := h.apart
  unused := h.unused
  holds dir hdir := (map_setContent (hfile dir hdir) content).symm ▸ h.holds dir hdir
  flushed dir hdir other hother := by
    have hne : other ≠ file := fun heq => hfile dir hdir (heq ▸ hother)
    change (other ≠ file && fs.flushed other) = true
    rw [Bool.and_eq_true]
    exact ⟨decide_eq_true hne, h.flushed dir hdir other hother⟩

theorem append (h : Sound temp target P fs) (hfile : fs.dir temp = some file) (data : List α) :
    Sound temp target P (fs.append file data) :=
  h.setContent (fun dir hdir => h.unused dir hdir file hfile) _

theorem append_read (h : Sound temp target P fs) (hfile : fs.dir temp = some file) (data : List α) :
    (fs.append file data).read target = fs.read target :=
  map_setContent (h.unused fs.dir List.mem_cons_self file hfile) _

theorem flush (h : Sound temp target P fs) : Sound temp target P (fs.flush file) :=
  ⟨h.fresh, h.apart, h.unused, h.holds, fun dir hdir other hother =>
    Bool.or_eq_true_iff.mpr (.inr (h.flushed dir hdir other hother))⟩

theorem flushDir (h : Sound temp target P fs) : Sound temp target P fs.flushDir := by
  have hin : ∀ dir ∈ fs.flushDir.versions, dir ∈ fs.versions := fun dir hdir =>
    List.mem_of_mem_head? (List.mem_singleton.mp hdir ▸ rfl)
  exact ⟨fun dir hdir => h.fresh dir (hin dir hdir), fun dir hdir => h.apart dir (hin dir hdir),
    fun dir hdir => h.unused dir (hin dir hdir), fun dir hdir => h.holds dir (hin dir hdir),
    fun dir hdir => h.flushed dir (hin dir hdir)⟩

/-- What is read does not change any more if the directory has not been changed since it was flushed. -/
theorem settled (h : Sound temp target P fs) (holder : fs.older = []) :
    Sound temp target (· = fs.read target) fs := by
  have hnow : ∀ dir ∈ fs.versions, dir = fs.dir := fun dir hdir => by
    rw [FileSystem.versions, holder] at hdir
    exact List.mem_singleton.mp hdir
  exact ⟨h.fresh, h.apart, h.unused, fun dir hdir => hnow dir hdir ▸ rfl, h.flushed⟩

/-- Whatever the crash leaves of the rest, the file is what it has been in the directory that comes back. -/
theorem crash (h : Sound temp target P fs) (version : Nat) (garbage : Nat → List α) :
    Sound temp target P (fs.crash version garbage) := by
  have hin : (fs.crash version garbage).dir ∈ fs.versions := by
    change (fs.versions[version]?).getD fs.dir ∈ fs.versions
    cases hget : fs.versions[version]? with
    | none => exact List.mem_cons_self
    | some dir => exact List.mem_of_getElem? hget
  have hnow : ∀ dir ∈ (fs.crash version garbage).versions, dir = (fs.crash version garbage).dir :=
    fun dir hdir => List.mem_singleton.mp hdir
  have hcontent : ((fs.crash version garbage).dir target).map (fs.crash version garbage).content =
      ((fs.crash version garbage).dir target).map fs.content := by
    cases htarget : (fs.crash version garbage).dir target with
    | none => rfl
    | some file => exact congrArg some (if_pos (h.flushed _ hin file htarget))
  refine ⟨fun dir hdir => ?_, fun dir hdir => ?_, fun dir hdir => ?_, fun dir hdir => ?_,
    fun _ _ _ _ => rfl⟩
  · exact hnow dir hdir ▸ h.fresh _ hin
  · exact hnow dir hdir ▸ h.apart _ hin
  · intro file hfile
    rw [hnow dir hdir]
    exact h.apart _ hin file hfile
  · rw [hnow dir hdir, hcontent]
    exact h.holds _ hin

/-- The directory changes, but nothing that is being prepared gets into place. -/
theorem setDir (h : Sound temp target P fs) {dir : ν → Option Nat}
    (hfresh : ∀ name file, dir name = some file → file < fs.next)
    (hapart : ∀ file, dir temp = some file → ∀ other ∈ dir :: fs.versions, other target ≠ some file)
    (holds : P ((dir target).map fs.content))
    (hflushed : ∀ file, dir target = some file → fs.flushed file = true) :
    Sound temp target P (fs.setDir dir) where
  fresh other hother := by
    rcases List.mem_cons.mp hother with rfl | hother
    · exact hfresh
    · exact h.fresh other hother
  apart other hother file hfile := by
    rcases List.mem_cons.mp hother with rfl | hother
    · exact hapart file hfile _ List.mem_cons_self
    · exact h.apart other hother file hfile
  unused other hother file hfile := hapart file hfile other hother
  holds other hother := by
    rcases List.mem_cons.mp hother with rfl | hother
    · exact holds
    · exact h.holds other hother
  flushed other hother := by
    rcases List.mem_cons.mp hother with rfl | hother
    · exact hflushed
    · exact h.flushed other hother

theorem notNext (h : Sound temp target P fs) : ∀ dir ∈ fs.versions, dir target ≠ some fs.next :=
  fun dir hdir htarget => absurd (h.fresh dir hdir target _ htarget) (Nat.lt_irrefl _)

theorem grow (h : Sound temp target P fs) : Sound temp target P { fs with next := fs.next + 1 } :=
  ⟨fun dir hdir name file hfile => Nat.lt_succ_of_lt (h.fresh dir hdir name file hfile),
    h.apart, h.unused, h.holds, h.flushed⟩

section

variable [DecidableEq ν]

/-- The file that is opened is not the one in place. -/
theorem create (hne : temp ≠ target) (h : Sound temp target P fs) :
    Sound temp target P (fs.create temp).2 ∧ (fs.create temp).2.dir temp = some (fs.create temp).1 ∧
      (fs.create temp).2.content (fs.create temp).1 = [] ∧
      (fs.create temp).2.read target = fs.read target := by
  cases htemp : fs.dir temp with
  | some file =>
      have hcreate : fs.create temp = (file, fs.setContent file []) := by rw [FileSystem.create, htemp]
      rw [hcreate]
      exact ⟨h.setContent (fun dir hdir => h.unused dir hdir file htemp) _, htemp, if_pos rfl,
        map_setContent (h.unused fs.dir List.mem_cons_self file htemp) _⟩
  | none =>
      have hcreate : fs.create temp = (fs.next,
          ({ fs with next := fs.next + 1 }.setContent fs.next []).setDir (enter temp fs.next fs.dir)) := by
        rw [FileSystem.create, htemp]
      have hcontent : Sound temp target P ({ fs with next := fs.next + 1 }.setContent fs.next []) :=
        h.grow.setContent h.notNext _
      have hin : fs.dir ∈ fs.versions := List.mem_cons_self
      have htarget : enter temp fs.next fs.dir target = fs.dir target := enter_ne hne.symm _ _
      rw [hcreate]
      refine ⟨hcontent.setDir ?_ ?_ ?_ ?_, enter_self _ _ _, if_pos rfl, ?_⟩
      · intro name file hfile
        rcases enter_cases hfile with rfl | hfile
        · exact Nat.lt_succ_self _
        · exact Nat.lt_succ_of_lt (h.fresh fs.dir hin name file hfile)
      · intro file hfile other hother
        rw [enter_self] at hfile
        cases hfile
        rcases List.mem_cons.mp hother with rfl | hother
        · rw [htarget]
          exact h.notNext fs.dir hin
        · exact h.notNext other hother
      · rw [htarget]
        exact hcontent.holds fs.dir hin
      · intro file hfile
        rw [htarget] at hfile
        exact hcontent.flushed fs.dir hin file hfile
      · change (enter temp fs.next fs.dir target).map _ = _
        rw [htarget]
        exact map_setContent (h.notNext fs.dir hin) _

theorem rename (hne : temp ≠ target) (h : Sound temp target P fs) (hfile : fs.dir temp = some file)
    (hflushed : fs.flushed file = true) :
    Sound temp target (fun c => P c ∨ c = some (fs.content file)) (fs.rename temp target) ∧
      (fs.rename temp target).read target = some (fs.content file) := by
  have hrename : fs.rename temp target = fs.setDir (enter target file (leave temp fs.dir)) := by
    rw [FileSystem.rename, hfile]
  have hin : fs.dir ∈ fs.versions := List.mem_cons_self
  have hread : (enter target file (leave temp fs.dir) target).map fs.content = some (fs.content file) := by
    rw [enter_self]
    rfl
  rw [hrename]
  refine ⟨(h.mono fun _ hc => .inl hc).setDir ?_ ?_ (.inr hread) ?_, hread⟩
  · intro name other hother
    rcases enter_cases hother with rfl | hother
    · exact h.fresh fs.dir hin temp _ hfile
    · exact h.fresh fs.dir hin name other (leave_some hother)
  · intro other hother
    rw [enter_ne hne, leave_self] at hother
    cases hother
  · intro other hother
    rw [enter_self] at hother
    cases hother
    exact hflushed

end

end Sound

end FileSystem

/-! ## Programs -/

namespace Machine

/-- Nothing else goes wrong from here on. -/
def Within (s : Machine ν α) (faults : Set (FileFault α)) : Prop := ∀ n, s.faults n ∈ faults

theorem Within.moveTo {s : Machine ν α} {faults : Set (FileFault α)} (h : s.Within faults)
    (fs : FileSystem ν α) : (s.moveTo fs).Within faults := fun n => h (n + 1)

/-- From the directory `fs` on, the program ends in `post`, or it fails or is stopped in `failed`, if nothing
but `faults` goes wrong. -/
def Spec (faults : Set (FileFault α)) (x : Program (Machine ν α) ε β) (fs : FileSystem ν α)
    (post : β → FileSystem ν α → Prop) (failed : ε → FileSystem ν α → Prop) : Prop :=
  ∀ s, s.fs = fs → s.Within faults →
    wp x (fun b t => post b t.fs ∧ t.Within faults) (fun e t => failed e t.fs ∧ t.Within faults) s

namespace Spec

variable {faults : Set (FileFault α)} {fs : FileSystem ν α} {post : β → FileSystem ν α → Prop}
  {failed : ε → FileSystem ν α → Prop}

theorem mono {x : Program (Machine ν α) ε β} {post' : β → FileSystem ν α → Prop}
    {failed' : ε → FileSystem ν α → Prop} (h : Spec faults x fs post failed)
    (hpost : ∀ b d, post b d → post' b d) (hfailed : ∀ e d, failed e d → failed' e d) :
    Spec faults x fs post' failed' := fun s hs hfaults =>
  (h s hs hfaults).mono (fun b _ ht => ⟨hpost b _ ht.1, ht.2⟩) fun e _ ht => ⟨hfailed e _ ht.1, ht.2⟩

theorem pure {b : β} (h : post b fs) : Spec faults (pure b) fs post failed := by
  rintro s rfl hfaults
  exact ⟨h, hfaults⟩

theorem fail {e : ε} (h : failed e fs) : Spec faults (Program.fail e) fs post failed := by
  rintro s rfl hfaults
  exact ⟨h, hfaults⟩

theorem bind {x : Program (Machine ν α) ε γ} {f : γ → Program (Machine ν α) ε β}
    (h : Spec faults x fs (fun c d => Spec faults (f c) d post failed) failed) :
    Spec faults (x >>= f) fs post failed := by
  intro s hs hfaults
  rw [Program.wp_bind]
  exact (h s hs hfaults).mono (fun c t ht => ht.1 t rfl ht.2) fun _ _ ht => ht

theorem mapError {f : ε' → ε} {x : Program (Machine ν α) ε' β}
    (h : Spec faults x fs post fun e => failed (f e)) : Spec faults (Program.mapError f x) fs post failed :=
  fun s hs hfaults => Program.wp_mapError.mpr (h s hs hfaults)

theorem attempt {x : Program (Machine ν α) ε' β} {post : Except ε' β → FileSystem ν α → Prop}
    (h : Spec faults x fs (fun b => post (.ok b)) fun e => post (.error e)) :
    Spec faults (Program.attempt x) fs post failed := fun s hs hfaults =>
  Program.wp_attempt.mpr (h s hs hfaults)

theorem operation {run : FileSystem ν α → Except FileError β × FileSystem ν α}
    {partly : Nat → FileSystem ν α → FileSystem ν α} {failed : FileError → FileSystem ν α → Prop}
    (hok : ∀ b d, run fs = (.ok b, d) → post b d) (herror : ∀ e d, run fs = (.error e, d) → failed e d)
    (hpart : ∀ extent, .fails extent ∈ faults → failed .io (partly extent fs))
    (hcrash : ∀ extent version garbage, .crash extent version garbage ∈ faults →
      failed .crashed ((partly extent fs).crash version garbage)) :
    Spec faults (operation run partly) fs post failed := by
  rintro s rfl hfaults
  have hfirst := hfaults 0
  cases hfault : s.faults 0 with
  | none =>
      have heq : Machine.operation run partly s = ((run s.fs).1, s.moveTo (run s.fs).2) := by
        rw [Machine.operation, hfault]
      rw [wp, heq]
      rcases hrun : run s.fs with ⟨r, d⟩
      cases r with
      | ok b => exact ⟨hok b d hrun, hfaults.moveTo d⟩
      | error e => exact ⟨herror e d hrun, hfaults.moveTo d⟩
  | fails extent =>
      have heq : Machine.operation run partly s = (.error .io, s.moveTo (partly extent s.fs)) := by
        rw [Machine.operation, hfault]
      rw [wp, heq]
      exact ⟨hpart extent (hfault ▸ hfirst), hfaults.moveTo _⟩
  | crash extent version garbage =>
      have heq : Machine.operation run partly s =
          (.error .crashed, s.moveTo ((partly extent s.fs).crash version garbage)) := by
        rw [Machine.operation, hfault]
      rw [wp, heq]
      exact ⟨hcrash extent version garbage (hfault ▸ hfirst), hfaults.moveTo _⟩

end Spec

/-! ## Operations on sound files -/

/-- One of the faults has the error for a result. -/
inductive Blamed (faults : Set (FileFault α)) : FileError → Prop where
  | io {extent : Nat} : .fails extent ∈ faults → Blamed faults .io
  | crashed {extent version : Nat} {garbage : Nat → List α} :
      .crash extent version garbage ∈ faults → Blamed faults .crashed

/-- What an operation leaves that fails or is stopped before the file in place has been changed. -/
structure Left (temp target : ν) (P : Option (List α) → Prop) (faults : Set (FileFault α))
    (fs : FileSystem ν α) (e : FileError) (d : FileSystem ν α) : Prop where
  blamed : Blamed faults e
  sound : d.Sound temp target P
  unchanged : e ≠ .crashed → d.read target = fs.read target
  settled : e = .crashed → d.older = []

section

variable {temp target : ν} {P : Option (List α) → Prop} {faults : Set (FileFault α)} {fs : FileSystem ν α}
  {file : Nat} {failed : FileError → FileSystem ν α → Prop}

theorem Left.io {d : FileSystem ν α} {extent : Nat} (hfault : .fails extent ∈ faults)
    (h : d.Sound temp target P) (hread : d.read target = fs.read target) :
    Left temp target P faults fs .io d :=
  ⟨.io hfault, h, fun _ => hread, by rintro ⟨⟩⟩

theorem Left.crash {d : FileSystem ν α} {extent version : Nat} {garbage : Nat → List α}
    (hfault : .crash extent version garbage ∈ faults) (h : d.Sound temp target P) :
    Left temp target P faults fs .crashed (d.crash version garbage) :=
  ⟨.crashed hfault, h.crash version garbage, fun hne => absurd rfl hne, fun _ => rfl⟩

theorem Left.trans {e : FileError} {d fs' : FileSystem ν α} (h : Left temp target P faults fs' e d)
    (hread : fs'.read target = fs.read target) : Left temp target P faults fs e d :=
  ⟨h.blamed, h.sound, fun hne => (h.unchanged hne).trans hread, h.settled⟩

/-- An operation whose parts keep the file sound. -/
theorem operation_sound {run : FileSystem ν α → Except FileError β × FileSystem ν α}
    {partly : Nat → FileSystem ν α → FileSystem ν α} {post : β → FileSystem ν α → Prop}
    (hpartly : ∀ extent, (partly extent fs).Sound temp target P)
    (hread : ∀ extent, (partly extent fs).read target = fs.read target)
    (hok : ∀ b d, run fs = (.ok b, d) → post b d) (herror : ∀ e d, run fs = (.error e, d) → failed e d)
    (hfailed : ∀ e d, Left temp target P faults fs e d → failed e d) :
    Spec faults (operation run partly) fs post failed :=
  Spec.operation hok herror
    (fun extent hfault => hfailed _ _ (.io hfault (hpartly extent) (hread extent)))
    fun extent _ _ hfault => hfailed _ _ (.crash hfault (hpartly extent))

theorem atOnce_sound {effect : FileSystem ν α → FileSystem ν α} (h : fs.Sound temp target P)
    (heffect : (effect fs).Sound temp target P) (extent : Nat) :
    (atOnce effect extent fs).Sound temp target P := by
  rw [atOnce]
  split
  · exact h
  · exact heffect

theorem atOnce_read {effect : FileSystem ν α → FileSystem ν α}
    (h : (effect fs).read target = fs.read target) (extent : Nat) :
    (atOnce effect extent fs).read target = fs.read target := by
  rw [atOnce]
  split
  · rfl
  · exact h

/-- An operation whose effect keeps the file sound. -/
theorem effectful_sound {effect : FileSystem ν α → FileSystem ν α} {post : Unit → FileSystem ν α → Prop}
    (h : fs.Sound temp target P) (heffect : (effect fs).Sound temp target P)
    (hread : (effect fs).read target = fs.read target) (hpost : post () (effect fs))
    (hfailed : ∀ e d, Left temp target P faults fs e d → failed e d) :
    Spec faults (effectful effect) fs post failed := by
  refine operation_sound (atOnce_sound h heffect) (atOnce_read hread) ?_ ?_ hfailed
  · intro b d hrun
    obtain ⟨-, rfl⟩ := Prod.mk.inj hrun
    exact hpost
  · intro e d hrun
    cases hrun

theorem readFile_sound {post : List α → FileSystem ν α → Prop} (h : fs.Sound temp target P)
    (hpost : ∀ content, fs.read target = some content → post content fs)
    (hmissing : fs.read target = none → failed .notFound fs)
    (hfailed : ∀ e d, Left temp target P faults fs e d → failed e d) :
    Spec faults (readFile target) fs post failed := by
  refine operation_sound (fun _ => h) (fun _ => rfl) ?_ ?_ hfailed
  · intro content d hrun
    cases hread : fs.read target with
    | none =>
        rw [hread] at hrun
        cases hrun
    | some content =>
        rw [hread] at hrun
        cases hrun
        exact hpost _ hread
  · intro e d hrun
    cases hread : fs.read target with
    | none =>
        rw [hread] at hrun
        cases hrun
        exact hmissing hread
    | some content =>
        rw [hread] at hrun
        cases hrun

theorem pathExists_sound {name : ν} {post : Bool → FileSystem ν α → Prop} (h : fs.Sound temp target P)
    (hpost : ∀ b, post b fs) (hfailed : ∀ e d, Left temp target P faults fs e d → failed e d) :
    Spec faults (pathExists name) fs post failed := by
  rintro s rfl hfaults
  have hfirst := hfaults 0
  cases hfault : s.faults 0 with
  | none =>
      have heq : pathExists name s = (.ok (s.fs.dir name).isSome, s.moveTo s.fs) := by
        rw [pathExists, hfault]
      rw [wp, heq]
      exact ⟨hpost _, hfaults.moveTo _⟩
  | fails extent =>
      have heq : pathExists name s = (.ok false, s.moveTo s.fs) := by rw [pathExists, hfault]
      rw [wp, heq]
      exact ⟨hpost _, hfaults.moveTo _⟩
  | crash extent version garbage =>
      have heq : pathExists name s = (.error .crashed, s.moveTo (s.fs.crash version garbage)) := by
        rw [pathExists, hfault]
      rw [wp, heq]
      exact ⟨hfailed _ _ (.crash (hfault ▸ hfirst) h), hfaults.moveTo _⟩

theorem writeAll_sound {data : List α} {post : Unit → FileSystem ν α → Prop} (h : fs.Sound temp target P)
    (hdir : fs.dir temp = some file) (hpost : post () (fs.append file data))
    (hfailed : ∀ e d, Left temp target P faults fs e d → failed e d) :
    Spec faults (writeAll file data) fs post failed := by
  refine operation_sound (fun _ => h.append hdir _) (fun _ => h.append_read hdir _) ?_ ?_ hfailed
  · intro b d hrun
    cases hrun
    exact hpost
  · intro e d hrun
    cases hrun

variable [DecidableEq ν]

theorem openFile_sound {post : Nat → FileSystem ν α → Prop} (hne : temp ≠ target)
    (h : fs.Sound temp target P)
    (hpost : ∀ file d, d.Sound temp target P → d.dir temp = some file → d.content file = [] →
      d.read target = fs.read target → post file d)
    (hfailed : ∀ e d, Left temp target P faults fs e d → failed e d) :
    Spec faults (openFile temp) fs post failed := by
  obtain ⟨hcreated, hdir, hcontent, hread⟩ := h.create hne
  refine operation_sound (atOnce_sound h hcreated) (atOnce_read hread) ?_ ?_ hfailed
  · intro file d hrun
    cases hrun
    exact hpost _ _ hcreated hdir hcontent hread
  · intro e d hrun
    cases hrun

/-- The renamed file gets into place, or everything is as it was. -/
theorem renameFile_sound {Q : Option (List α) → Prop} {post : Unit → FileSystem ν α → Prop}
    (hne : temp ≠ target) (h : fs.Sound temp target P) (hdir : fs.dir temp = some file)
    (hflushed : fs.flushed file = true) (hPQ : ∀ c, P c ∨ c = some (fs.content file) → Q c)
    (hpost : ∀ d, d.Sound temp target Q → d.read target = some (fs.content file) → post () d)
    (hfailed : ∀ e d, Left temp target P faults fs e d → failed e d)
    (hrenamed : ∀ d, Blamed faults .io → d.Sound temp target Q → d.read target = some (fs.content file) →
      failed .io d)
    (hcrashed : ∀ d, Blamed faults .crashed → d.Sound temp target Q → d.older = [] → failed .crashed d) :
    Spec faults (renameFile temp target) fs post failed := by
  obtain ⟨hafter, hread⟩ := h.rename hne hdir hflushed
  refine Spec.operation ?_ ?_ ?_ ?_
  · intro b d hrun
    rw [hdir] at hrun
    cases hrun
    exact hpost _ (hafter.mono hPQ) hread
  · intro e d hrun
    rw [hdir] at hrun
    cases hrun
  · intro extent hfault
    rw [atOnce]
    split
    · exact hfailed _ _ (.io hfault h rfl)
    · exact hrenamed _ (.io hfault) (hafter.mono hPQ) hread
  · intro extent version garbage hfault
    rw [atOnce]
    split
    · exact hfailed _ _ (.crash hfault h)
    · exact hcrashed _ (.crashed hfault) ((hafter.mono hPQ).crash version garbage) rfl

end

end Machine
