import Bip360Enforcer.Pqc.Lemmas.Spent
import Bip360Enforcer.Validator.Lemmas.FileSync

/-!
# The events keep up with the databases
-/

namespace Bip360Enforcer.Validator

open Program (wp)

variable {C : Crypto} {headers : Set Header} {hashes : List BlockHash} {dbs dbs' : Dbs} {s t u : Store}

/-! ## Heights -/

/-- Every stored header has a height. -/
def Heights (dbs : Dbs) : Prop :=
  ∀ blockHash, (dbs.header.lookup blockHash).isSome → (dbs.height.lookup blockHash).isSome

theorem Heights.withHeader (h : Heights dbs) (header : Header) (height : Nat) :
    Heights (withHeader C header height dbs) := by
  intro blockHash hheader
  have hstored : ((dbs.height.insert (C.blockHash header) height).lookup blockHash).isSome := by
    by_cases hk : blockHash = C.blockHash header
    · rw [hk, AList.lookup_insert]
      rfl
    · rw [AList.lookup_insert_ne hk]
      exact h blockHash (by simpa [Validator.withHeader, AList.lookup_insert_ne hk] using hheader)
  change ((if header.prevBlockhash = .allZeros then _ else _ : HashDb Nat).lookup blockHash).isSome
  split
  · exact hstored
  · exact isSome_lookup_insert hstored

theorem Heights.same (h : Heights dbs) (hheader : dbs'.header = dbs.header)
    (hheight : dbs'.height = dbs.height) : Heights dbs' := by
  intro blockHash
  rw [hheader, hheight]
  exact h blockHash

/-! ## Broken blocks -/

/-- A block whose header is stored is either connected or rejected. -/
theorem Indexed.not_broken {handler : BlockHandler} {block : Block} (h : Indexed C headers dbs hashes)
    (hhashes : HonestHashes C headers) (hheights : Heights dbs) (hblock : block.header ∈ headers)
    (hstored : (dbs.header.lookup (C.blockHash block.header)).isSome)
    (hextra : NoP2mr handler.extraPrevouts) : ¬ Broken C handler block dbs := by
  rintro ⟨hparent, hlacks⟩
  rw [h.tip] at hparent
  have htop : ∀ {tip}, dbs.currentChainTip = some tip → ∃ below, hashes = tip :: below := by
    intro tip htip
    rw [h.tip] at htip
    cases hashes with
    | nil => cases htip
    | cons top below => exact ⟨below, by rw [Option.some.inj htip]⟩
  rcases hlacks with hheight | hwork | ⟨tip, htip, -, hwork⟩ | ⟨height, diff, hvalid, op, hop, hnotin⟩
  · have hsome := hheights _ hstored
    rw [hheight] at hsome
    cases hsome
  · obtain ⟨header, hlookup⟩ := Option.isSome_iff_exists.mp hstored
    have hnone := hwork header hlookup
    rw [h.header_eq hhashes hblock hlookup, chainWorkOf] at hnone
    split at hnone
    · cases hnone
    · rename_i hzero
      cases hashes with
      | nil => exact hzero hparent.symm
      | cons top below =>
          have hprev : block.header.prevBlockhash = top := hparent.symm
          have hsome := (h.entry top below (List.suffix_refl _)).work
          rw [hprev, Option.map_eq_none_iff] at hnone
          rw [hnone] at hsome
          cases hsome
  · obtain ⟨below, rfl⟩ := htop htip
    have hsome := (h.entry tip below (List.suffix_refl _)).work
    rw [hwork] at hsome
    cases hsome
  · exact hnotin (Pqc.validateAndDiff_spent hextra hvalid op hop)

/-! ## Stores between two transactions -/

/-- No write transaction is open, the events spell the stored chain, and no operation will fail once an
event is sent in a transaction that is open. -/
structure Synced (C : Crypto) (headers : Set Header) (hashes : List BlockHash) (s : Store) : Prop where
  indexed : Indexed C headers s.dbs hashes
  heights : Heights s.dbs
  events : replayEvents s.events = some hashes
  closed : s.sent = none
  steady : ∀ n, s.faults n true = false

theorem steady_later (h : ∀ n, s.faults n true = false) (hlater : Later s t) :
    ∀ n, t.faults n true = false := by
  obtain ⟨k, hk⟩ := hlater
  intro n
  rw [hk, h]

namespace Synced

theorem unchanged (h : Synced C headers hashes s) (hclosed : t.sent = none) (hlater : Later s t)
    (hdbs : t.dbs = s.dbs) (hevents : t.events = s.events) : Synced C headers hashes t :=
  ⟨hdbs ▸ h.indexed, hdbs ▸ h.heights, hevents ▸ h.events, hclosed, steady_later h.steady hlater⟩

theorem next (h : Synced C headers hashes s) : Synced C headers hashes s.next :=
  h.unchanged h.closed ⟨1, fun _ => rfl⟩ rfl rfl

theorem grown {accepted : List BlockHash} (h : Synced C headers hashes s)
    (hgrown : Grown C headers hashes accepted s t) (hclosed : t.sent = none) :
    Synced C headers (accepted ++ hashes) t :=
  ⟨hgrown.indexed, h.heights.same hgrown.header hgrown.height, hgrown.events h.events, hclosed,
    steady_later h.steady hgrown.later⟩

end Synced

/-! ## Live calls -/

/-- A header that is stored, by whatever call. -/
theorem HeaderStored.indexed {header : Header} (h : HeaderStored C header dbs dbs')
    (hhashes : HonestHashes C headers) (hknown : header ∈ headers) (hindexed : Indexed C headers dbs hashes) :
    Indexed C headers dbs' hashes := by
  cases h with
  | kept => exact hindexed
  | added height absent parent first =>
      exact hindexed.moreHeaders (putHeader_moreHeaders hhashes hindexed.keyed hknown)

theorem HeaderStored.heights {header : Header} (h : HeaderStored C header dbs dbs') (hheights : Heights dbs) :
    Heights dbs' := by
  cases h with
  | kept => exact hheights
  | added height absent parent first => exact hheights.withHeader header height

/-- An accepted block and its event make the same step. -/
theorem Accepted.grows {handler : BlockHandler} {block : Block} {event : Event} {u v : Store}
    (h : Accepted C handler block dbs dbs' event u v) (hhashes : HonestHashes C headers)
    (hblock : block.header ∈ headers) (hindexed : Indexed C headers dbs hashes) :
    Indexed C headers dbs' (C.blockHash block.header :: hashes) ∧
      event.apply hashes = some (C.blockHash block.header :: hashes) ∧
      (Heights dbs → Heights dbs') := by
  have hstored := h.header.indexed hhashes hblock hindexed
  obtain ⟨hquiet, height, coinbase, txs, diff, header, work, hconnects, rfl⟩ :=
    (connectBlock_spec fun _ h => h).ok h.run
  have hgrown := Grown.connect hhashes hstored hblock hquiet hconnects
  rw [h.result]
  refine ⟨hgrown.indexed, ?_, fun hheights => ?_⟩
  · have hprev : block.header.prevBlockhash = hashes.head?.getD .allZeros := by
      rw [← hconnects.onTip, hstored.tip]
    rw [connectEvent, Event.apply, if_pos hprev]
  · exact (h.header.heights hheights).same hgrown.header hgrown.height

theorem connectBlock_synced {validator : Validator} {block : Block} (hhashes : HonestHashes C headers)
    (hblock : block.header ∈ headers) (h : Synced C headers hashes s) :
    wp (validator.connectBlock C block) (fun _ t => ∃ hashes', Synced C headers hashes' t)
      (fun _ t => ∃ hashes', Synced C headers hashes' t) s := by
  refine connectBlock_wp.mono ?_ ?_
  · rintro action t ⟨extra, -, hsent, hlater, haction⟩
    cases action with
    | accept =>
        obtain ⟨event, u, v, haccepted, hevents, -⟩ := haction
        obtain ⟨hindexed, happly, hheights⟩ := haccepted.grows hhashes hblock h.indexed
        refine ⟨C.blockHash block.header :: hashes, hindexed, hheights h.heights, ?_, hsent,
          steady_later h.steady hlater⟩
        rw [hevents, replayEvents_append h.events, happly]
    | reject =>
        obtain ⟨hheader, hevents, -⟩ := haction
        exact ⟨hashes, hheader.indexed hhashes hblock h.indexed, hheader.heights h.heights,
          hevents ▸ h.events, hsent, steady_later h.steady hlater⟩
  · rintro e t ht
    exact ⟨hashes, h.unchanged (ht.closed h.closed) ht.later ht.dbs ht.events⟩

/-- With no block connected, the block to disconnect must not have a stored diff. -/
theorem disconnectBlock_synced {blockHash : BlockHash} (h : Synced C headers hashes s)
    (hconnected : s.dbs.currentChainTip = none → s.dbs.diff.lookup blockHash = none) :
    wp (Validator.disconnectBlock C blockHash) (fun _ t => ∃ hashes', Synced C headers hashes' t)
      (fun _ t => ∃ hashes', Synced C headers hashes' t) s := by
  refine disconnectBlock_live_wp.mono ?_ ?_
  · rintro - t ⟨hsent, hlater, ⟨-, hdbs, hevents⟩ | ⟨diff, header, hdisconnects, hevents⟩⟩
    · exact ⟨hashes, h.unchanged hsent hlater hdbs hevents⟩
    · cases hashes with
      | nil =>
          have hnone := hconnected h.indexed.tip
          rw [hdisconnects.hasDiff] at hnone
          cases hnone
      | cons tip below =>
          obtain rfl : tip = blockHash := hdisconnects.onTip tip h.indexed.tip
          refine ⟨below, h.indexed.disconnect hdisconnects, ?_, ?_, hsent, steady_later h.steady hlater⟩
          · rw [hdisconnects.result]
            exact h.heights
          · rw [hevents, replayEvents_append h.events, Event.apply, if_pos rfl]
  · rintro e t ⟨hsent, hlater, hdbs, ⟨hevents, -⟩ | ⟨-, n, hn⟩⟩
    · exact ⟨hashes, h.unchanged (hsent h.closed) hlater hdbs hevents⟩
    · rw [h.steady n] at hn
      cases hn

/-! ## Disconnecting stale blocks -/

/-- The store within the transaction that started with `s`, when it has come to the chain `hashes`. -/
structure Rewinding (C : Crypto) (headers : Set Header) (s : Store) (hashes : List BlockHash) (t : Store) :
    Prop where
  indexed : Indexed C headers t.dbs hashes
  heights : Heights t.dbs
  events : replayEvents t.events = some hashes
  later : Later s t
  isOpen : t.sent.isSome
  sending : t.events = s.events ∨ t.sent = some true

/-- A failure comes before any event. -/
theorem Rewinding.events_eq (h : Rewinding C headers s hashes t) (hsteady : ∀ n, s.faults n true = false)
    (hfaulty : Faulty t) : t.events = s.events := by
  rcases h.sending with hevents | hsent
  · exact hevents
  · obtain ⟨n, hn⟩ := hfaulty
    rw [hsent, Option.getD_some, steady_later hsteady h.later] at hn
    cases hn

theorem Rewinding.next (h : Rewinding C headers s hashes t) : Rewinding C headers s hashes t.next :=
  ⟨h.indexed, h.heights, h.events, h.later.trans ⟨1, fun _ => rfl⟩, h.isOpen, h.sending⟩

theorem disconnectDownTo_wp {target current : BlockHash} {fuel : Nat}
    (hsteady : ∀ n, s.faults n true = false) (h : Rewinding C headers s hashes t)
    (htarget : Trail hashes target) (hcurrent : current = hashes.head?.getD .allZeros)
    (hfuel : hashes.length ≤ fuel) :
    wp (BlockHandler.disconnectDownTo C target fuel current)
      (fun _ u => ∃ hashes', Rewinding C headers s hashes' u)
      (fun _ u => Later s u ∧ u.events = s.events) t := by
  induction fuel generalizing t hashes current with
  | zero =>
      obtain rfl := List.length_eq_zero_iff.mp (Nat.le_zero.mp hfuel)
      rw [BlockHandler.disconnectDownTo]
      refine Program.wp_ite.mpr ⟨fun _ => ⟨[], h⟩, fun hne => absurd ?_ hne⟩
      exact hcurrent.trans (htarget.resolve_left List.not_mem_nil).symm
  | succ fuel ih =>
      rw [BlockHandler.disconnectDownTo]
      refine Program.wp_ite.mpr ⟨fun _ => ⟨hashes, h⟩, fun hne => ?_⟩
      cases hashes with
      | nil => exact absurd (hcurrent.trans (htarget.resolve_left List.not_mem_nil).symm) hne
      | cons tip below =>
          obtain rfl : current = tip := hcurrent
          have htarget' : Trail below target := by
            refine htarget.imp_left fun hin => (List.mem_cons.mp hin).resolve_left fun heq => ?_
            exact hne heq.symm
          rw [Program.wp_bind, Program.wp_mapError]
          refine disconnectBlock_wp.mono ?_ ?_
          · rintro - v (⟨hnone, -⟩ | ⟨diff, header, u, hdisconnects, hquiet, rfl⟩)
            · have hdiff := (h.indexed.entry current below (List.suffix_refl _)).diff
              rw [hnone] at hdiff
              cases hdiff
            · have hsent : (u.send (.disconnectBlock current)).sent = some true := by
                obtain ⟨sent, hsome⟩ := Option.isSome_iff_exists.mp h.isOpen
                rw [Store.send, hquiet.sent, hsome]
                rfl
              have hrewinding : Rewinding C headers s below (u.send (.disconnectBlock current)) := by
                refine ⟨h.indexed.disconnect hdisconnects, ?_, ?_, h.later.trans hquiet.faults,
                  by rw [hsent]; rfl, .inr hsent⟩
                · change Heights u.dbs
                  rw [hdisconnects.result]
                  exact h.heights
                · change replayEvents (u.events ++ _) = _
                  rw [hquiet.events, replayEvents_append h.events, Event.apply, if_pos rfl]
              rw [Program.wp_bind, wp_read]
              refine ⟨fun hfails => ?_, fun _ => ?_⟩
              · refine ⟨hrewinding.next.later, ?_⟩
                exact hrewinding.events_eq hsteady ⟨0, hfails⟩
              · refine ih hrewinding.next htarget' ?_ (by simpa using hfuel)
                exact congrArg (Option.getD · .allZeros) hrewinding.indexed.tip
          · rintro e u ⟨hquiet, hreason⟩
            refine ⟨h.later.trans hquiet.faults, ?_⟩
            rw [hquiet.events]
            exact h.events_eq hsteady (hreason.resolve_right h.indexed.not_stuck)

theorem disconnectStale_wp {mainTip : BlockHash} (hhashes : HonestHashes C headers)
    (hsteady : ∀ n, s.faults n true = false) (h : Rewinding C headers s hashes t)
    (hearly : t.events = s.events) :
    wp (BlockHandler.disconnectStale C mainTip) (fun _ u => ∃ hashes', Rewinding C headers s hashes' u)
      (fun _ u => Later s u ∧ u.events = s.events) t := by
  unfold BlockHandler.disconnectStale
  rw [Program.wp_bind, wp_read]
  refine ⟨fun hfails => ⟨h.next.later, h.events_eq hsteady ⟨0, hfails⟩⟩, fun _ => ?_⟩
  rw [Program.wp_bind, Program.wp_mapError, lastCommonAncestor, Program.wp_bind, wp_read]
  refine ⟨fun hfails => ⟨h.next.next.later, h.next.events_eq hsteady ⟨0, hfails⟩⟩, fun _ => ?_⟩
  rw [Program.wp_ofExcept]
  refine ⟨fun ancestor hancestor => ?_, fun e _ => ⟨h.next.next.later, ?_⟩⟩
  · refine Program.wp_ite.mpr ⟨fun _ => ⟨hashes, h.next.next⟩, fun _ => ?_⟩
    have htrail : Trail hashes ancestor := h.indexed.lastCommonAncestor hhashes hancestor
    have hcurrent : t.dbs.currentChainTip.getD .allZeros = hashes.head?.getD .allZeros :=
      congrArg (Option.getD · .allZeros) h.indexed.tip
    rw [Program.wp_bind, Program.wp_get, Program.wp_bind]
    refine (disconnectDownTo_wp hsteady h.next.next htrail hcurrent h.indexed.length_le).mono ?_
      fun _ _ h => h
    rintro current u ⟨hashes', hu⟩
    simp only [commit, Program.wp_bind, wp_access, Program.wp_pure]
    exact ⟨fun hfails => ⟨hu.next.later, hu.events_eq hsteady ⟨0, hfails⟩⟩, fun _ => ⟨hashes', hu.next⟩⟩
  · exact hearly

/-- Whatever a catch-up does with the stale blocks is committed or left as it was. -/
theorem transaction_disconnectStale_wp {mainTip : BlockHash} (hhashes : HonestHashes C headers)
    (h : Synced C headers hashes s) :
    wp (transaction (BlockHandler.disconnectStale C mainTip))
      (fun _ t => ∃ hashes', Synced C headers hashes' t)
      (fun _ t => ∃ hashes', Synced C headers hashes' t) s := by
  have hlater : Later s s.next.begin := ⟨1, fun _ => rfl⟩
  have hstart : Rewinding C headers s.next.begin hashes s.next.begin :=
    ⟨h.indexed, h.heights, h.events, ⟨0, fun _ => rfl⟩, rfl, .inl rfl⟩
  refine wp_transaction (fun _ => ⟨hashes, h.next⟩) ?_
  refine (disconnectStale_wp hhashes (steady_later h.steady hlater) hstart rfl).mono ?_ ?_
  · rintro - t ⟨hashes', ht⟩
    have hlater' : Later s t := hlater.trans ht.later
    exact ⟨hashes', ht.indexed, ht.heights, ht.events, rfl, steady_later h.steady hlater'⟩
  · rintro e t ⟨hlater', hevents⟩
    have hlater'' : Later s t := hlater.trans hlater'
    exact ⟨hashes, h.unchanged rfl hlater'' rfl hevents⟩

/-! ## Catching up -/

/-- The node stores the headers of the run only. -/
theorem storeHeaders_synced {stored : List (Header × Nat)} (hhashes : HonestHashes C headers)
    (hknown : ∀ entry ∈ stored, entry.1 ∈ headers) (h : Synced C headers hashes s) :
    wp (Validator.storeHeaders C stored) (fun _ t => ∃ hashes', Synced C headers hashes' t)
      (fun _ t => ∃ hashes', Synced C headers hashes' t) s := by
  have hinv : ∀ entry ∈ stored, ∀ dbs, Indexed C headers dbs hashes ∧ Heights dbs →
      Indexed C headers (withHeader C entry.1 entry.2 dbs) hashes ∧
        Heights (withHeader C entry.1 entry.2 dbs) := by
    rintro ⟨header, height⟩ hentry dbs ⟨hindexed, hheights⟩
    exact ⟨hindexed.moreHeaders (putHeader_moreHeaders hhashes hindexed.keyed (hknown _ hentry)),
      hheights.withHeader header height⟩
  refine (storeHeaders_wp hinv ⟨h.indexed, h.heights⟩).mono ?_ ?_
  · rintro - t ⟨⟨hindexed, hheights⟩, hsent, hlater, hevents, -⟩
    exact ⟨hashes, hindexed, hheights, hevents ▸ h.events, hsent, steady_later h.steady hlater⟩
  · rintro e t ht
    exact ⟨hashes, h.unchanged (ht.closed h.closed) ht.later ht.dbs ht.events⟩

variable {handler : BlockHandler} {stored : HashDb Header} {blocks : List Block}

/-- A batch of blocks whose headers are stored. -/
theorem connectBatch_synced (hhashes : HonestHashes C headers) (hextra : NoP2mr handler.extraPrevouts)
    (h : Synced C headers hashes s)
    (hblocks : ∀ block ∈ blocks, block.header ∈ headers ∧
      (s.dbs.header.lookup (C.blockHash block.header)).isSome) :
    wp (handler.connectBatch C blocks)
      (fun outcome t => t.dbs.header = s.dbs.header ∧ match outcome with
        | none => Synced C headers ((hashesOf C blocks).reverse ++ hashes) t
        | some (hash, _) => ∃ accepted rejected rest, blocks = accepted ++ rejected :: rest ∧
            C.blockHash rejected.header = hash ∧
            Synced C headers ((hashesOf C accepted).reverse ++ hashes) t)
      (fun _ t => t.dbs.header = s.dbs.header ∧ Synced C headers hashes t) s := by
  refine (connectBatch_wp hhashes h.indexed fun b hb => (hblocks b hb).1).mono ?_ ?_
  · rintro outcome t ⟨hsent, hmatch⟩
    rcases outcome with _ | ⟨hash, err⟩
    · exact ⟨hmatch.header, h.grown hmatch hsent⟩
    · obtain ⟨accepted, rejected, rest, hsplit, hhash, -, hgrown⟩ := hmatch
      exact ⟨hgrown.header, accepted, rejected, rest, hsplit, hhash, h.grown hgrown hsent⟩
  · rintro e t ⟨hsent, hlater, hdbs, hreason⟩
    refine ⟨by rw [hdbs], h.unchanged (hsent h.closed) hlater hdbs ?_⟩
    rcases hreason with hevents | ⟨n, hn⟩ | ⟨accepted, failing, rest, u, rfl, hgrown, hbroken⟩
    · exact hevents
    · rw [h.steady n] at hn
      cases hn
    · obtain ⟨hknown, hheader⟩ := hblocks failing (by simp)
      rw [← hgrown.header] at hheader
      exact absurd hbroken (hgrown.indexed.not_broken hhashes
        (h.heights.same hgrown.header hgrown.height) hknown hheader hextra)

/-- The events keep up during a file sync, too. -/
theorem synced_batch {missing : List BlockHash} (hhashes : HonestHashes C headers)
    (hextra : NoP2mr handler.extraPrevouts)
    (hmissing : ∀ blockHash ∈ missing, (stored.lookup blockHash).isSome) :
    BatchInvariant C handler {block | block.header ∈ headers} missing fun connected t =>
      Synced C headers (connected ++ hashes) t ∧ t.dbs.header = stored where
  next h := ⟨h.1.next, h.2⟩
  batch := by
    rintro connected s blocks ⟨hsynced, rfl⟩ hblocks
    refine (connectBatch_synced hhashes hextra hsynced fun b hb =>
      ⟨(hblocks b hb).1, hmissing _ (hblocks b hb).2⟩).mono ?_ ?_
    · rintro outcome t ⟨hheader, hmatch⟩
      rcases outcome with _ | ⟨hash, err⟩
      · exact ⟨by rw [List.append_assoc]; exact hmatch, hheader⟩
      · obtain ⟨accepted, rejected, rest, hsplit, hhash, haccepted⟩ := hmatch
        exact ⟨accepted, rejected, rest, hsplit, hhash, by rw [List.append_assoc]; exact haccepted,
          hheader⟩
    · rintro e t ⟨hheader, ht⟩
      exact ⟨ht, hheader⟩

end Bip360Enforcer.Validator
