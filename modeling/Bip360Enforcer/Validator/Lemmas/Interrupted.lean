import Bip360Enforcer.Validator.Lemmas.FileSync

/-!
# How a file sync ends
-/

namespace Bip360Enforcer.Validator

open Program (wp)

variable {C : Crypto} {handler : BlockHandler} {known : Set Block} {dir : BlocksDir}
  {missing : List BlockHash} {inv : List BlockHash → Store → Prop}

/-- Whether the file sync is cancelled before the n-th block. -/
def BlocksDir.Stops (dir : BlocksDir) (n : Nat) : Prop := n % 100 = 0 ∧ dir.cancelled n = true

/-- An error of the parser, of decoding or of the databases is met while blocks are pending. -/
inductive Interrupted (C : Crypto) (handler : BlockHandler) (dir : BlocksDir) (first : BlockHash) :
    Nat → List (Except SyncError FileBlock) → FileSync → Prop where
  | parser {n : Nat} {e : SyncError} {items : List (Except SyncError FileBlock)} {st : FileSync}
      (going : ¬ dir.Stops n) (pending : st.pendingBlocks ≠ []) :
      Interrupted C handler dir first n (.error e :: items) st
  | decode {n : Nat} {block : FileBlock} {e : SyncError} {items : List (Except SyncError FileBlock)}
      {st : FileSync} (going : ¬ dir.Stops n) (pending : st.pendingBlocks ≠ [])
      (unreadable : block.txData = .error e) :
      Interrupted C handler dir first n (.ok block :: items) st
  | connect {n : Nat} {block : FileBlock} {txData : List Transaction} {e : SyncError}
      {items : List (Except SyncError FileBlock)} {st u : FileSync} (going : ¬ dir.Stops n)
      (readable : block.txData = .ok txData)
      (run : handler.handleFileBlock C dir.config first block st = (.error e, u)) :
      Interrupted C handler dir first n (.ok block :: items) st
  | flush {n : Nat} {e : SyncError} {items : List (Except SyncError FileBlock)} {st u : FileSync}
      (ends : dir.Stops n ∨ items = []) (pending : st.pendingBlocks ≠ [])
      (run : handler.connectPendingBlocks C st = (.error e, u)) :
      Interrupted C handler dir first n items st
  | next {n : Nat} {block : FileBlock} {items : List (Except SyncError FileBlock)} {st u : FileSync}
      (going : ¬ dir.Stops n)
      (run : handler.handleFileBlock C dir.config first block st = (.ok true, u))
      (later : Interrupted C handler dir first (n + 1) items u) :
      Interrupted C handler dir first n (.ok block :: items) st

/-- Short of the end of the files, what the handling of the next block says. -/
theorem interrupted_cons_iff {first : BlockHash} {n : Nat} {block : FileBlock}
    {items : List (Except SyncError FileBlock)} {st u : FileSync} {outcome : Except SyncError Bool}
    (going : ¬ dir.Stops n) (run : handler.handleFileBlock C dir.config first block st = (outcome, u)) :
    Interrupted C handler dir first n (.ok block :: items) st ↔
      (∃ e, block.txData = .error e ∧ st.pendingBlocks ≠ []) ∨
      (∃ e txData, block.txData = .ok txData ∧ outcome = .error e) ∨
      (outcome = .ok true ∧ Interrupted C handler dir first (n + 1) items u) := by
  constructor
  · intro hinterrupted
    cases hinterrupted with
    | decode _ pending unreadable => exact .inl ⟨_, unreadable, pending⟩
    | connect _ readable run' =>
        rw [run'] at run
        cases run
        exact .inr (.inl ⟨_, _, readable, rfl⟩)
    | flush ends =>
        rcases ends with hstops | hnil
        · exact absurd hstops going
        · cases hnil
    | next _ run' later =>
        rw [run'] at run
        cases run
        exact .inr (.inr ⟨rfl, later⟩)
  · rintro (⟨e, unreadable, pending⟩ | ⟨e, txData, readable, rfl⟩ | ⟨rfl, later⟩)
    · exact .decode going pending unreadable
    · exact .connect going readable run
    · exact .next going run later

/-- How a file sync ends: no block is lost, or it was interrupted. -/
def Ends (C : Crypto) (known : Set Block) (missing : List BlockHash)
    (inv : List BlockHash → Store → Prop) (interrupted : Prop) (st : FileSync) : Prop :=
  (Settled C known missing inv st ∧ ¬ interrupted) ∨ (Losing C known missing inv st ∧ interrupted)

theorem Ends.syncing {interrupted : Prop} {st : FileSync}
    (h : Ends C known missing inv interrupted st) :
    ∃ connected, Syncing C known missing inv connected st := by
  rcases h with ⟨hsettled, -⟩ | ⟨hlosing, -⟩
  · exact hsettled.syncing
  · exact hlosing.syncing

theorem flushPending_ends (hinv : BatchInvariant C handler known missing inv)
    (hnodup : missing.Nodup) {first : BlockHash} {n : Nat}
    {items : List (Except SyncError FileBlock)} {st : FileSync} (h : Going C known missing inv st)
    (hends : dir.Stops n ∨ items = []) :
    wp (handler.flushPending C)
      (fun _ => Ends C known missing inv (Interrupted C handler dir first n items st))
      (fun _ => Ends C known missing inv (Interrupted C handler dir first n items st)) st := by
  refine (flushPending_wp hinv hnodup h.syncing).mono ?_ ?_
  · rintro - st' ⟨hsettled, hrun⟩
    refine .inl ⟨hsettled, fun hinterrupted => ?_⟩
    cases hinterrupted with
    | flush ends pending run => exact hrun pending _ _ run
    | parser going => exact hends.elim going fun hnil => by cases hnil
    | decode going => exact hends.elim going fun hnil => by cases hnil
    | connect going => exact hends.elim going fun hnil => by cases hnil
    | next going => exact hends.elim going fun hnil => by cases hnil
  · rintro e st' ⟨hlosing, hpending, hrun⟩
    exact .inr ⟨hlosing, .flush hends hpending hrun⟩

/-- From any block of the files to the end of the sync. -/
theorem fileLoop_ends (hinv : BatchInvariant C handler known missing inv) (hnodup : missing.Nodup)
    {first : BlockHash} {n : Nat} {items : List (Except SyncError FileBlock)} {st : FileSync}
    (hitems : ∀ block, .ok block ∈ items → block.Known known)
    (h : Going C known missing inv st) :
    wp (handler.fileLoop C dir first n items >>= fun _ => handler.flushPending C)
      (fun _ => Ends C known missing inv (Interrupted C handler dir first n items st))
      (fun _ => Ends C known missing inv (Interrupted C handler dir first n items st)) st := by
  induction items generalizing n st with
  | nil =>
      rw [BlockHandler.fileLoop, Program.wp_bind]
      refine Program.wp_ite.mpr ⟨fun hstops => ?_, fun _ => ?_⟩
      · rw [Program.wp_bind]
        exact flushPending_ends hinv hnodup h (.inr rfl)
      · exact flushPending_ends hinv hnodup h (.inr rfl)
  | cons item items ih =>
      rw [BlockHandler.fileLoop, Program.wp_bind]
      refine Program.wp_ite.mpr ⟨fun hstops => ?_, fun hgoing => ?_⟩
      · rw [Program.wp_bind]
        exact flushPending_ends hinv hnodup h (.inl hstops)
      · have hitems' : ∀ block, .ok block ∈ items → block.Known known :=
          fun block hb => hitems block (List.mem_cons_of_mem _ hb)
        rw [Program.wp_bind, Program.wp_ofExcept]
        refine ⟨fun block hblock => ?_, fun e he => ?_⟩
        · subst hblock
          rw [Program.wp_bind]
          refine ((handleFileBlock_wp hinv hnodup h (hitems block (by simp))).and
            (Program.wp_self _ _)).mono ?_ ?_
          · rintro all u ⟨⟨hreadable, hu⟩, hrun⟩
            have hdecodes : ¬ ∃ e, block.txData = .error e ∧ st.pendingBlocks ≠ [] := by
              rintro ⟨e, unreadable, pending⟩
              have hok := hreadable pending
              rw [unreadable] at hok
              cases hok
            cases all with
            | true =>
                have hsame : Interrupted C handler dir first n (.ok block :: items) st ↔
                    Interrupted C handler dir first (n + 1) items u := by
                  rw [interrupted_cons_iff hgoing hrun]
                  refine ⟨?_, fun hlater => .inr (.inr ⟨rfl, hlater⟩)⟩
                  rintro (hdecode | ⟨e, txData, -, hconnect⟩ | ⟨-, hlater⟩)
                  · exact absurd hdecode hdecodes
                  · cases hconnect
                  · exact hlater
                rw [hsame, ← Program.wp_bind]
                exact ih hitems' hu
            | false =>
                have hnot : ¬ Interrupted C handler dir first n (.ok block :: items) st := by
                  rw [interrupted_cons_iff hgoing hrun]
                  rintro (hdecode | ⟨e, txData, -, hconnect⟩ | ⟨hnext, -⟩)
                  · exact hdecodes hdecode
                  · cases hconnect
                  · cases hnext
                have hsettled : Settled C known missing inv u := hu
                change wp (handler.flushPending C) _ _ u
                unfold BlockHandler.flushPending
                rw [Program.wp_bind, Program.wp_get]
                refine Program.wp_ite.mpr ⟨fun _ => .inl ⟨hsettled, hnot⟩, fun hne => ?_⟩
                exact absurd (List.isEmpty_iff.mpr hsettled.settled) hne
          · rintro e u ⟨(⟨hlosing, hreason⟩ | ⟨hsettled, hnil, hunreadable⟩), hrun⟩
            · refine .inr ⟨hlosing, (interrupted_cons_iff hgoing hrun).mpr ?_⟩
              cases htx : block.txData with
              | ok txData => exact .inr (.inl ⟨e, txData, rfl, rfl⟩)
              | error e' =>
                  refine .inl ⟨e', rfl, hreason.resolve_right fun hok => ?_⟩
                  rw [htx] at hok
                  cases hok
            · refine .inl ⟨hsettled, ?_⟩
              rw [interrupted_cons_iff hgoing hrun]
              rintro (⟨e', -, pending⟩ | ⟨e', txData, readable, -⟩ | ⟨hnext, -⟩)
              · exact pending hnil
              · rw [readable] at hunreadable
                cases hunreadable
              · cases hnext
        · subst he
          obtain ⟨connected, hsyncing⟩ := h.syncing
          by_cases hnil : st.pendingBlocks = []
          · refine .inl ⟨⟨⟨connected, hsyncing⟩, hnil⟩, fun hinterrupted => ?_⟩
            cases hinterrupted with
            | parser _ pending => exact pending hnil
            | flush _ pending => exact pending hnil
          · exact .inr ⟨⟨⟨connected, hsyncing⟩, hnil⟩, .parser hgoing hnil⟩

/-- The sync of `missing` from the files meets an error while blocks are pending. -/
def InterruptedSync (C : Crypto) (handler : BlockHandler) (dir : BlocksDir) (missing : List BlockHash)
    (s : Store) : Prop :=
  ∃ first items height t, missing.getLast? = some first ∧ dir.parse first = .ok items ∧
    (get Dbs.height (missing.head?.getD first) : Db SyncError Nat) s = (.ok height, t) ∧
    Interrupted C handler dir first 0 items (BlockHandler.startFileSync dir missing t)

theorem syncFromDirectory_ends (hinv : BatchInvariant C handler known missing inv)
    (hnodup : missing.Nodup) (hfiles : ∀ first items, dir.parse first = .ok items →
      ∀ block, .ok block ∈ items → block.Known known) {s : Store} (hs : inv [] s) :
    wp (handler.syncFromDirectory C dir)
      (fun _ => Ends C known missing inv (InterruptedSync C handler dir missing s))
      (fun _ => Ends C known missing inv (InterruptedSync C handler dir missing s))
      (BlockHandler.startFileSync dir missing s) := by
  have hstart : ∀ t, inv [] t →
      Settled C known missing inv (BlockHandler.startFileSync dir missing t) := fun t ht =>
    ⟨⟨[], by simp [BlockHandler.startFileSync, hashesOf], ht,
      (fun block hb => by cases hb), fun hash block hb => by cases hb⟩, rfl⟩
  unfold BlockHandler.syncFromDirectory
  rw [Program.wp_bind, Program.wp_get]
  cases hlast : missing.getLast? with
  | none =>
      simp only [BlockHandler.startFileSync, hlast]
      refine .inl ⟨hstart s hs, ?_⟩
      rintro ⟨first, _, _, _, hfirst, -⟩
      rw [hlast] at hfirst
      cases hfirst
  | some first =>
      simp only [BlockHandler.startFileSync, hlast]
      rw [Program.wp_bind, Program.wp_ofExcept]
      refine ⟨fun items hitems => ?_, fun e he => .inl ⟨hstart s hs, ?_⟩⟩
      · rw [Program.wp_bind, wp_liftDb]
        refine ((get_wp (fun _ => hinv.next hs) fun _ => hinv.next hs).and (Program.wp_self _ _)).mono
          ?_ ?_
        · rintro height t ⟨ht, hrun⟩
          have hsame : InterruptedSync C handler dir missing s ↔ Interrupted C handler dir first 0 items
              (BlockHandler.startFileSync dir missing t) := by
            refine ⟨?_, fun h => ⟨first, items, height, t, hlast, hitems, hrun, h⟩⟩
            rintro ⟨first', items', height', t', hfirst, hparse, hrun', h⟩
            obtain rfl := Option.some.inj (hlast.symm.trans hfirst)
            obtain rfl := Except.ok.inj (hitems.symm.trans hparse)
            rw [hrun] at hrun'
            cases hrun'
            exact h
          have hmain : wp (handler.fileLoop C dir first 0 items >>= fun _ => handler.flushPending C) _ _
              (BlockHandler.startFileSync dir missing t) :=
            fileLoop_ends hinv hnodup (hfiles first items hitems) (hstart t ht).going
          rw [← hsame, Program.wp_bind] at hmain
          rw [Program.wp_bind]
          refine hmain.mono (fun _ st' hst' => ?_) fun _ _ h => h
          rw [Program.wp_bind]
          exact hst'.mono (fun _ _ h => h) fun _ _ h => h
        · rintro e t ⟨ht, hrun⟩
          refine .inl ⟨hstart t ht, ?_⟩
          rintro ⟨first', items', height', t', hfirst, hparse, hrun', -⟩
          obtain rfl := Option.some.inj (hlast.symm.trans hfirst)
          rw [hrun] at hrun'
          cases hrun'
      · rintro ⟨first', items', _, _, hfirst, hparse, -⟩
        obtain rfl := Option.some.inj (hlast.symm.trans hfirst)
        rw [he] at hparse
        cases hparse

/-- What is missing after a file sync, and what this has lost. -/
theorem missingAfterFileSync_wp {dir : Option BlocksDir} (hinv : BatchInvariant C handler known missing inv)
    (hnodup : missing.Nodup) (hfiles : ∀ d ∈ dir, ∀ first items, d.parse first = .ok items →
      ∀ block, .ok block ∈ items → block.Known known) {s : Store} (hs : inv [] s) :
    wp (handler.missingAfterFileSync C dir missing)
      (fun left t => ∃ lost connected, missing = left ++ lost ++ connected ∧ inv connected t ∧
        (lost = [] ↔ ¬ ∃ d, dir = some d ∧ InterruptedSync C handler d missing s))
      (fun _ _ => False) s := by
  cases dir with
  | none =>
      refine ⟨[], [], by simp, hs, fun _ => ?_, fun _ => rfl⟩
      rintro ⟨d, hd, -⟩
      cases hd
  | some dir =>
      rcases hrun : handler.syncFromDirectory C dir (BlockHandler.startFileSync dir missing s) with
        ⟨outcome, st⟩
      have hends : Ends C known missing inv (InterruptedSync C handler dir missing s) st := by
        have hwp := syncFromDirectory_ends hinv hnodup (hfiles dir rfl) hs
        cases outcome with
        | ok _ => exact hwp.ok hrun
        | error _ => exact hwp.error hrun
      have hresult : handler.missingAfterFileSync C (some dir) missing s =
          (.ok st.missingBlocks, st.store) := by
        change (Except.ok (handler.syncFromDirectory C dir
          (BlockHandler.startFileSync dir missing s)).2.missingBlocks, _) = _
        rw [hrun]
      refine Program.wp_iff.mpr ⟨fun left t hok => ?_, fun e t herror => ?_⟩
      · rw [hresult] at hok
        cases hok
        obtain ⟨connected, hsyncing⟩ := hends.syncing
        refine ⟨_, connected, hsyncing.split, hsyncing.store, ?_⟩
        rcases hends with ⟨hsettled, hnot⟩ | ⟨hlosing, hinterrupted⟩
        · refine ⟨fun _ => ?_, fun _ => by simp [hsettled.settled, hashesOf]⟩
          rintro ⟨d, hd, hinterrupted⟩
          cases hd
          exact hnot hinterrupted
        · refine ⟨fun hnil => ?_, fun hnot => absurd ⟨dir, rfl, hinterrupted⟩ hnot⟩
          exact absurd (by simpa [hashesOf] using hnil) hlosing.pending
      · rw [hresult] at herror
        cases herror

end Bip360Enforcer.Validator
