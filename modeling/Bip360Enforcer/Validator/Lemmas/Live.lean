import Bip360Enforcer.Validator.Lemmas.Reachable

/-!
# What the driver's calls do
-/

namespace Bip360Enforcer.Validator

open Pqc (CoreChain)
open Program (wp wp_self)

variable {C : Crypto} {validator : Validator} {block : Block} {extraPrevouts : PrevoutMap}

/-- The operations that may fail from the one store on are among those of the other. -/
def Later (s t : Store) : Prop := ∃ k, ∀ n, t.faults n = s.faults (n + k)

theorem Later.trans {s t u : Store} (h : Later s t) (h' : Later t u) : Later s u := by
  obtain ⟨k, hk⟩ := h
  obtain ⟨k', hk'⟩ := h'
  exact ⟨k' + k, fun n => by rw [hk', hk, Nat.add_assoc]⟩

theorem Later.of_begin {s t : Store} (h : Quiet s.next.begin t) : Later s t := by
  obtain ⟨k, hk⟩ := h.faults
  exact ⟨k + 1, fun n => by rw [← Nat.add_assoc]; exact hk n⟩

theorem Later.fault (h : Later s t) (ht : ∃ n sent, t.faults n sent = true) :
    ∃ n sent, s.faults n sent = true := by
  obtain ⟨k, hk⟩ := h
  obtain ⟨n, sent, hn⟩ := ht
  exact ⟨n + k, sent, hk n ▸ hn⟩

/-! ## Nothing done -/

/-- A call that leaves everything as it was, whatever transactions it has begun. -/
structure Unchanged (s t : Store) : Prop where
  closed : s.sent = none → t.sent = none
  later : Later s t
  dbs : t.dbs = s.dbs
  events : t.events = s.events
  log : ∃ n, t.log = s.log ++ List.replicate n (.ended s.dbs)

namespace Unchanged

variable {s t u : Store}

theorem quiet (h : Quiet s t) (hdbs : t.dbs = s.dbs) : Unchanged s t where
  closed hs := h.sent.trans hs
  later := h.faults
  dbs := hdbs
  events := h.events
  log := ⟨0, by simpa using h.log⟩

theorem next (s : Store) : Unchanged s s.next := .quiet (.next s) rfl

theorem trans (h : Unchanged s t) (h' : Unchanged t u) : Unchanged s u where
  closed hs := h'.closed (h.closed hs)
  later := h.later.trans h'.later
  dbs := h'.dbs.trans h.dbs
  events := h'.events.trans h.events
  log := by
    obtain ⟨n, hn⟩ := h.log
    obtain ⟨n', hn'⟩ := h'.log
    exact ⟨n + n', by rw [hn', hn, h.dbs, List.append_assoc, ← List.replicate_add]⟩

/-- The end of a write transaction that keeps nothing. -/
theorem finish (h : Quiet s.next.begin t) : Unchanged s (t.finish s.dbs) where
  closed _ := rfl
  later := (Later.of_begin h : Later s t)
  dbs := rfl
  events := h.events
  log := ⟨1, congrArg (· ++ _) h.log⟩

end Unchanged

/-- A write transaction in which nothing is written and no event is sent. -/
theorem transaction_unchanged {ε α : Type} [FromDb ε] {body : Db ε α} {result : α → Prop} {s : Store}
    (h : wp body (fun a t => Quiet s.next.begin t ∧ t.dbs = s.dbs ∧ result a)
      (fun _ t => Quiet s.next.begin t) s.next.begin) :
    wp (transaction body) (fun a t => Unchanged s t ∧ result a) (fun _ t => Unchanged s t) s := by
  refine wp_transaction (fun _ => .next s) (h.mono ?_ fun e t ht => .finish ht)
  rintro a t ⟨hquiet, hdbs, ha⟩
  exact ⟨hdbs ▸ .finish hquiet, ha⟩

/-! ## Storing the header -/

/-- The databases after a header is stored at some height. -/
def withHeader (C : Crypto) (header : Header) (height : Nat) (dbs : Dbs) : Dbs :=
  { dbs with
    header := dbs.header.insert (C.blockHash header) header
    height := if header.prevBlockhash = .allZeros then dbs.height.insert (C.blockHash header) height
      else (dbs.height.insert (C.blockHash header) height).insert header.prevBlockhash (height - 1) }

/-- Nothing has changed, but for a header that was not stored. -/
inductive HeaderStored (C : Crypto) (header : Header) (dbs : Dbs) : Dbs → Prop where
  | kept : HeaderStored C header dbs dbs
  | added (height : Nat) (absent : dbs.header.lookup (C.blockHash header) = none)
      (parent : header.prevBlockhash ≠ .allZeros →
        ∃ parentHeight, dbs.height.lookup header.prevBlockhash = some parentHeight ∧
          height = parentHeight + 1)
      (first : header.prevBlockhash = .allZeros → height = 0) :
      HeaderStored C header dbs (withHeader C header height dbs)

theorem HeaderStored.tip_eq {header : Header} {dbs dbs' : Dbs} (h : HeaderStored C header dbs dbs') :
    dbs'.currentChainTip = dbs.currentChainTip := by
  cases h with
  | kept => rfl
  | added => rfl

theorem HeaderStored.p2mrUtxos_eq {header : Header} {dbs dbs' : Dbs}
    (h : HeaderStored C header dbs dbs') : dbs'.p2mrUtxos = dbs.p2mrUtxos := by
  cases h with
  | kept => rfl
  | added => rfl

theorem putHeaders_singleton_spec {ε : Type} [FromDb ε] {dbs : Dbs} {header : Header} {height : Nat}
    {fault : ε → Prop} {failed : ε → Dbs → Prop} (hfault : fault (fromDb .io)) :
    Spec (putHeaders C [(header, height)]) dbs (fun _ d => d = withHeader C header height dbs) failed
      fault := by
  unfold putHeaders
  rw [List.forM_eq_forM, List.forM_cons]
  refine Spec.bind ((putHeader_spec hfault).mono ?_ (fun _ _ h => h) fun _ h => h)
  rintro - d rfl
  exact Spec.pure rfl

theorem storeHeader_spec {dbs : Dbs} {fault : ConnectBlockError → Prop}
    {failed : ConnectBlockError → Dbs → Prop} (hfault : fault (fromDb .io)) :
    Spec (Validator.storeHeader C block) dbs (fun _ d => HeaderStored C block.header dbs d) failed
      fault := by
  have hput : ∀ height, dbs.header.lookup (C.blockHash block.header) = none →
      (block.header.prevBlockhash ≠ .allZeros → ∃ parentHeight,
        dbs.height.lookup block.header.prevBlockhash = some parentHeight ∧ height = parentHeight + 1) →
      (block.header.prevBlockhash = .allZeros → height = 0) →
      Spec (putHeaders C [(block.header, height)] >>= fun _ => pure true) dbs
        (fun _ d => HeaderStored C block.header dbs d) failed fault := by
    intro height habsent hparent hfirst
    refine Spec.bind ((putHeaders_singleton_spec hfault).mono ?_ (fun _ _ h => h) fun _ h => h)
    rintro - d rfl
    exact Spec.pure (.added height habsent hparent hfirst)
  refine Spec.bind (Spec.read hfault ?_)
  cases hlookup : dbs.header.lookup (C.blockHash block.header) with
  | some header => exact Spec.pure .kept
  | none =>
      refine Spec.ite (fun h => by cases h) fun _ => ?_
      refine Spec.ite (fun hzero => hput 0 hlookup (fun h => absurd hzero h) fun _ => rfl) fun hzero => ?_
      refine Spec.bind (Spec.tryGet hfault ?_)
      cases hparent : dbs.height.lookup block.header.prevBlockhash with
      | none => exact Spec.pure .kept
      | some parentHeight =>
          exact hput _ hlookup (fun _ => ⟨parentHeight, hparent, rfl⟩) fun h => absurd h hzero

theorem HeaderStored.reachable {headers : Set Header} {dbs dbs' : Dbs} {header : Header}
    {chain : List Block} (h : HeaderStored C header dbs dbs') (hknown : header ∈ headers)
    (hdbs : Reachable C headers dbs chain) : Reachable C headers dbs' chain := by
  cases h with
  | kept => exact hdbs
  | added height _ _ _ =>
      have hput : Spec (putHeaders C [(header, height)] : Db DbError Unit) dbs
          (fun _ d => d = withHeader C header height dbs) (fun _ _ => False) fun _ => True :=
        putHeaders_singleton_spec trivial
      -- The header can be stored without any operation failing.
      obtain ⟨_, t, hrun, -, ht⟩ := Spec.returns (s := ⟨dbs, [], none, fun _ _ => false, []⟩) hput
        (by rintro ⟨n, hn⟩; cases hn)
      rw [← ht]
      refine Reachable.putHeaders (s := ⟨dbs, [], none, fun _ _ => false, []⟩) hdbs ?_ hrun
      intro entry hentry
      obtain rfl : entry = (header, height) := by simpa using hentry
      exact hknown

/-- What holds of the databases and of every header that is stored, holds once all are stored. -/
theorem storeHeaders_wp {inv : Dbs → Prop} {stored : List (Header × Nat)} {s : Store}
    (hinv : ∀ entry ∈ stored, ∀ dbs, inv dbs → inv (withHeader C entry.1 entry.2 dbs)) (h : inv s.dbs) :
    wp (Validator.storeHeaders C stored)
      (fun _ t => inv t.dbs ∧ t.sent = none ∧ Later s t ∧ t.events = s.events ∧
        t.log = s.log ++ [.ended t.dbs])
      (fun _ t => Unchanged s t) s := by
  have hput : Spec (putHeaders C stored : Db SyncError Unit) s.dbs (fun _ => inv) (fun _ _ => True)
      fun _ => True := by
    refine Spec.forM (fun _ => inv) h ?_
    rintro done ⟨header, height⟩ rest d hsplit hd
    refine (putHeader_spec trivial).mono ?_ (fun _ _ h => h) fun _ h => h
    rintro - d' rfl
    exact hinv (header, height) (by rw [← hsplit]; simp) d hd
  unfold Validator.storeHeaders
  refine wp_transaction (fun _ => .next s) ?_
  rw [Program.wp_bind]
  refine (hput s.next.begin rfl).mono ?_ fun e t ht => .finish ht.1
  rintro - t ⟨hquiet, ht⟩
  have hnext := hquiet.trans (.next t)
  have hlater : Later s t.next := .of_begin hnext
  exact wp_access.mpr ⟨fun _ => .finish hnext,
    fun _ => ⟨ht, rfl, hlater, hnext.events, congrArg (· ++ _) hnext.log⟩⟩

/-! ## Connecting -/

/-- A rejected block leaves the databases as they were. -/
theorem connectBlock_rejected {handler : BlockHandler} {s t : Store} {err : ConnectBlockError}
    (h : handler.connectBlock C block s = (.error err, t)) (herr : err.isFatal = false) :
    t.dbs = s.dbs := by
  have hspec : Spec (handler.connectBlock C block) s.dbs _ _ fun e => e.isFatal = true :=
    connectBlock_spec fun _ h => h
  rcases ((hspec s rfl).error h).2 with (⟨-, hdbs⟩ | ⟨hfatal, -⟩) | ⟨-, hfatal⟩
  · exact hdbs
  · rw [herr] at hfatal
    cases hfatal
  · rw [herr] at hfatal
    cases hfatal

/-- The block is connected by the running handler, once its header is stored. -/
structure Accepted (C : Crypto) (handler : BlockHandler) (block : Block) (dbs dbs' : Dbs)
    (event : Event) (u v : Store) : Prop where
  header : HeaderStored C block.header dbs u.dbs
  run : handler.connectBlock C block u = (.ok event, v)
  result : dbs' = v.dbs

theorem connectBlockNoCommit_wp {s : Store} :
    wp (validator.connectBlockNoCommit C block extraPrevouts)
      (fun action t => Quiet s t ∧ match action with
        | .accept event => ∃ u v, Accepted C (validator.handler extraPrevouts) block s.dbs t.dbs event u v
        | .reject _ => HeaderStored C block.header s.dbs t.dbs)
      (fun _ t => Quiet s t) s := by
  unfold Validator.connectBlockNoCommit
  rw [Program.wp_bind]
  have hstore : Spec (Validator.storeHeader C block) s.dbs
      (fun _ d => HeaderStored C block.header s.dbs d) (fun _ _ => True) fun _ => True :=
    storeHeader_spec trivial
  refine (hstore s rfl).mono ?_ fun _ _ h => h.1
  rintro stored t ⟨hquiet, hheader⟩
  cases stored with
  | false => exact ⟨hquiet, hheader⟩
  | true =>
      simp only [if_true]
      rw [Program.wp_bind, wp_access]
      have hnext := hquiet.trans (.next t)
      refine ⟨fun _ => hnext, fun _ => ?_⟩
      rw [Program.wp_bind, Program.wp_get, Program.wp_bind, Program.wp_attempt]
      have hconnect : Spec ((validator.handler extraPrevouts).connectBlock C block) t.next.dbs _ _
          fun _ => True := connectBlock_spec fun _ _ => trivial
      refine ((hconnect t.next rfl).and (wp_self _ _)).mono ?_ ?_
      · rintro event v ⟨⟨hv, -⟩, hrun⟩
        exact ⟨hnext.trans hv, t.next, v, hheader, hrun, rfl⟩
      · rintro e v ⟨⟨hv, -⟩, -⟩
        refine Program.wp_ite.mpr ⟨fun _ => hnext.trans hv, fun _ => ?_⟩
        rw [Program.wp_bind, Program.wp_modify]
        exact ⟨(hnext.trans hv).setDbs _, hheader⟩

/-- What a live connect ends in: the databases change by the header alone, or by an accepted block,
whose event is sent once all is committed. -/
def ConnectPost (C : Crypto) (validator : Validator) (block : Block) (extraPrevouts : PrevoutMap)
    (s : Store) (action : Validator.ConnectBlockAction) (t : Store) : Prop :=
  t.sent = none ∧ Later s t ∧ match action with
    | .accept => ∃ event u v,
        Accepted C (validator.handler extraPrevouts) block s.dbs t.dbs event u v ∧
          t.events = s.events ++ [event] ∧ t.log = s.log ++ [.ended t.dbs, .sent event]
    | .reject => HeaderStored C block.header s.dbs t.dbs ∧ t.events = s.events ∧
        t.log = s.log ++ [.ended t.dbs]

theorem connectBlockCommit_wp {s : Store} :
    wp (validator.connectBlockCommit C block extraPrevouts)
      (ConnectPost C validator block extraPrevouts s) (fun _ t => Unchanged s t) s := by
  have hfailed : ∀ t, Quiet s.next.begin t → Unchanged s (t.finish s.dbs) := fun t => .finish
  unfold Validator.connectBlockCommit
  rw [Program.wp_bind]
  refine wp_transaction (fun _ => .next s) ?_
  rw [Program.wp_bind]
  refine connectBlockNoCommit_wp.mono ?_ fun _ t ht => hfailed t ht
  rintro action t ⟨hquiet, haction⟩
  cases action with
  | accept event =>
      obtain ⟨u, v, haccepted⟩ := haction
      simp only [Program.wp_bind, commit, wp_access, Program.wp_pure]
      have h₁ := hquiet.trans (.next t)
      have h₂ := h₁.trans (.next t.next)
      have hlater : Later s t.next.next := .of_begin h₂
      refine ⟨fun _ => hfailed _ h₁, fun _ => ⟨fun _ => hfailed _ h₂, fun _ => ?_⟩⟩
      refine ⟨rfl, hlater, event, u, v, haccepted, ?_⟩
      refine ⟨congrArg (· ++ [event]) h₂.events, ?_⟩
      have hlog : t.next.next.log = s.log := h₂.log
      simp [Store.send, Store.finish, hlog]
  | reject reason =>
      simp only [Program.wp_bind, commit, wp_access, Program.wp_pure]
      have h₁ := hquiet.trans (.next t)
      have hlater : Later s t.next := .of_begin h₁
      refine ⟨fun _ => hfailed _ h₁, fun _ => ?_⟩
      exact ⟨rfl, hlater, haction, h₁.events, congrArg (· ++ _) h₁.log⟩

/-- The prefetch changes nothing; the outputs it comes up with are whatever they are. -/
theorem prefetchExternalPrevouts_spec {dbs : Dbs} {failed : ConnectBlockError → Dbs → Prop}
    {fault : ConnectBlockError → Prop} :
    Spec (validator.prefetchExternalPrevouts C block) dbs
      (fun extra d => d = dbs ∧
        (extra = ∅ ∨ extra = validator.prefetchedPrevouts C dbs.p2mrUtxos block)) failed fault := by
  rintro s rfl
  unfold Validator.prefetchExternalPrevouts
  rw [Program.wp_bind, Program.wp_attempt, wp_read]
  exact ⟨fun _ => ⟨.next s, rfl, .inl rfl⟩, fun _ => ⟨.next s, rfl, .inr rfl⟩⟩

theorem connectBlock_wp {s : Store} :
    wp (validator.connectBlock C block)
      (fun action t => ∃ extra, (extra = ∅ ∨
          extra = validator.prefetchedPrevouts C s.dbs.p2mrUtxos block) ∧
        ConnectPost C validator block extra s action t)
      (fun _ t => Unchanged s t) s := by
  unfold Validator.connectBlock
  rw [Program.wp_bind]
  have hprefetch : Spec (validator.prefetchExternalPrevouts C block) s.dbs _ (fun _ _ => False)
      fun _ => False := prefetchExternalPrevouts_spec
  refine (hprefetch s rfl).mono ?_ fun _ _ h => (h.2.elim id fun h => h.2).elim
  rintro extra t ⟨hquiet, hdbs, hextra⟩
  refine connectBlockCommit_wp.mono ?_ ?_
  · rintro action u ⟨hsent, hlater, haction⟩
    rw [hdbs, hquiet.events, hquiet.log] at haction
    exact ⟨extra, hextra, hsent, Later.trans hquiet.faults hlater, haction⟩
  · exact fun e u hu => .trans (.quiet hquiet hdbs) hu

/-- An accepted block extends the active chain. -/
theorem Accepted.reachable {headers : Set Header} {chain : List Block} {dbs dbs' : Dbs} {event : Event}
    {u v : Store} (h : Accepted C (validator.handler extraPrevouts) block dbs dbs' event u v)
    (hdbs : Reachable C headers dbs chain) (hblock : block.header ∈ headers)
    (hcore : CoreChain C (block :: chain)) (hextra : NoP2mr extraPrevouts) :
    Reachable C headers dbs' (block :: chain) := by
  rw [h.result]
  exact .connect (h.header.reachable hblock hdbs) hblock hcore hextra h.run

/-! ## Disconnecting -/

/-- A live disconnect. -/
theorem disconnectBlock_live_wp {blockHash : BlockHash} {s : Store} :
    wp (Validator.disconnectBlock C blockHash)
      (fun _ t => t.sent = none ∧ Later s t ∧
        ((s.dbs.diff.lookup blockHash = none ∧ t.dbs = s.dbs ∧ t.events = s.events) ∨
          ∃ diff header, Disconnects blockHash s.dbs t.dbs diff header ∧
            t.events = s.events ++ [.disconnectBlock blockHash]))
      (fun _ t => (s.sent = none → t.sent = none) ∧ Later s t ∧ t.dbs = s.dbs ∧
        (t.events = s.events ∧ ((∃ n sent, s.faults n sent = true) ∨ Stuck blockHash s.dbs) ∨
          (t.events = s.events ++ [.disconnectBlock blockHash] ∧ ∃ n, s.faults n true = true))) s := by
  unfold Validator.disconnectBlock
  refine wp_transaction (fun hfails => ⟨id, ⟨1, fun _ => rfl⟩, rfl, .inl ⟨rfl, .inl ⟨0, _, hfails⟩⟩⟩) ?_
  rw [Program.wp_bind]
  refine disconnectBlock_wp.mono ?_ ?_
  · rintro - t (⟨hnone, hquiet, hdbs⟩ | ⟨diff, header, u, hdisconnects, hquiet, rfl⟩)
    · have hlater : Later s t.next := .of_begin (hquiet.trans (.next t))
      refine wp_access.mpr ⟨fun hfails => ⟨fun _ => rfl, hlater, rfl, .inl ⟨hquiet.events, .inl ?_⟩⟩,
        fun _ => ⟨rfl, hlater, .inl ⟨hnone, hdbs, hquiet.events⟩⟩⟩
      exact (Later.of_begin hquiet).fault ⟨0, _, hfails⟩
    · have hlater : Later s u.next := .of_begin (hquiet.trans (.next u))
      have hevents : (u.send (.disconnectBlock blockHash)).events =
          s.events ++ [.disconnectBlock blockHash] := congrArg (· ++ _) hquiet.events
      refine wp_access.mpr ⟨fun hfails => ⟨fun _ => rfl, hlater, rfl, .inr ⟨hevents, ?_⟩⟩,
        fun _ => ⟨rfl, hlater, .inr ⟨diff, header, hdisconnects, hevents⟩⟩⟩
      have hsent : (u.send (.disconnectBlock blockHash)).sent = some true := by
        simp [Store.send, hquiet.sent, Store.begin]
      rw [Store.fails, hsent] at hfails
      obtain ⟨k, hk⟩ := Later.of_begin hquiet
      have h0 : u.faults 0 = s.faults (0 + k) := hk 0
      exact ⟨0 + k, h0 ▸ hfails⟩
  · rintro e t ⟨hquiet, hreason⟩
    have hlater : Later s t := .of_begin hquiet
    refine ⟨fun _ => rfl, hlater, rfl, .inl ⟨hquiet.events, hreason.imp_left ?_⟩⟩
    rintro ⟨n, hn⟩
    exact ⟨n + 1, _, hn⟩

/-- The block is disconnected where this is called for: it was connected before, and no other block is the
tip. -/
structure Undoes (blockHash : BlockHash) (dbs : Dbs) : Prop where
  hasDiff : (dbs.diff.lookup blockHash).isSome
  onTip : ∀ tip, dbs.currentChainTip = some tip → tip = blockHash

theorem disconnectBlock_unchanged {blockHash : BlockHash} {s : Store} (h : ¬ Undoes blockHash s.dbs) :
    wp (Validator.disconnectBlock C blockHash) (fun _ t => Unchanged s t) (fun _ t => Unchanged s t) s := by
  refine (@transaction_unchanged _ _ _ _ (fun _ => True) s ?_).mono (fun _ _ h => h.1) fun _ _ h => h
  rw [Program.wp_bind]
  refine disconnectBlock_wp.mono ?_ fun _ _ h => h.1
  rintro - t (⟨-, hquiet, hdbs⟩ | ⟨diff, header, u, hdisconnects, -, -⟩)
  · have hnext := hquiet.trans (.next t)
    exact wp_access.mpr ⟨fun _ => hnext, fun _ => ⟨hnext, hdbs, trivial⟩⟩
  · have hdiff : (s.dbs.diff.lookup blockHash).isSome := by
      rw [show s.dbs.diff.lookup blockHash = some diff from hdisconnects.hasDiff]
      rfl
    exact absurd ⟨hdiff, hdisconnects.onTip⟩ h

end Bip360Enforcer.Validator
