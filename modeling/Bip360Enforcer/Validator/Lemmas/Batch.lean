import Bip360Enforcer.Validator.Lemmas.Chain
import Bip360Enforcer.Validator.Lemmas.Live

/-!
# Blocks connected one after the other
-/

namespace Bip360Enforcer.Validator

namespace BlockHandler

variable {C : Crypto} {handler : BlockHandler} {block : Block} {blocks accepted : List Block}
  {s t u : Store}

/-! ## One block of a batch -/

theorem handleBlockBatch_accept {event : Event} (h : handler.connectBlock C block s = (.ok event, t)) :
    handler.handleBlockBatch C (block :: blocks) s =
      handler.handleBlockBatch C blocks (t.send event) := by
  simp only [handleBlockBatch, Program.bind_apply, Program.attempt, h]
  rfl

theorem handleBlockBatch_reject {err : ConnectBlockError}
    (h : handler.connectBlock C block s = (.error err, t)) (herr : err.isFatal = false) :
    handler.handleBlockBatch C (block :: blocks) s =
      (.ok (some (C.blockHash block.header, err)), t) := by
  simp only [handleBlockBatch, Program.bind_apply, Program.attempt, h, herr]
  rfl

theorem handleBlockBatch_fatal {err : ConnectBlockError}
    (h : handler.connectBlock C block s = (.error err, t)) (herr : err.isFatal = true) :
    handler.handleBlockBatch C (block :: blocks) s = (.error (.connectBlock err), t) := by
  simp only [handleBlockBatch, Program.bind_apply, Program.attempt, h, herr]
  rfl

/-! ## Whole batches -/

theorem handleBlockBatch_append (h : handler.handleBlockBatch C accepted s = (.ok none, t)) :
    handler.handleBlockBatch C (accepted ++ blocks) s = handler.handleBlockBatch C blocks t := by
  induction accepted generalizing s with
  | nil =>
      cases h
      rfl
  | cons block accepted ih =>
      rcases hblock : handler.connectBlock C block s with ⟨outcome, u⟩
      cases outcome with
      | ok event =>
          rw [handleBlockBatch_accept hblock] at h
          rw [List.cons_append, handleBlockBatch_accept hblock]
          exact ih h
      | error e =>
          cases hfatal : e.isFatal with
          | true =>
              rw [handleBlockBatch_fatal hblock hfatal] at h
              cases h
          | false =>
              rw [handleBlockBatch_reject hblock hfatal] at h
              cases h

/-- A batch that ends with a rejected block has connected all blocks before it, and none after. -/
theorem handleBlockBatch_rejected {hash : BlockHash} {err : ConnectBlockError}
    (h : handler.handleBlockBatch C blocks s = (.ok (some (hash, err)), t)) :
    ∃ accepted rejected rest u, blocks = accepted ++ rejected :: rest ∧
      C.blockHash rejected.header = hash ∧ handler.handleBlockBatch C accepted s = (.ok none, u) ∧
      handler.connectBlock C rejected u = (.error err, t) ∧ err.isFatal = false := by
  induction blocks generalizing s with
  | nil => cases h
  | cons block blocks ih =>
      rcases hblock : handler.connectBlock C block s with ⟨outcome, u⟩
      cases outcome with
      | ok event =>
          rw [handleBlockBatch_accept hblock] at h
          obtain ⟨accepted, rejected, rest, v, rfl, hhash, haccepted, hrejected, herr⟩ := ih h
          refine ⟨block :: accepted, rejected, rest, v, rfl, hhash, ?_, hrejected, herr⟩
          rw [handleBlockBatch_accept hblock, haccepted]
      | error e =>
          cases hfatal : e.isFatal with
          | true =>
              rw [handleBlockBatch_fatal hblock hfatal] at h
              cases h
          | false =>
              rw [handleBlockBatch_reject hblock hfatal] at h
              cases h
              exact ⟨[], block, blocks, s, rfl, rfl, rfl, hblock, hfatal⟩

end BlockHandler

/-! ## Growth of the chain -/

section

open Program (wp)

variable {C : Crypto} {headers : Set Header} {handler : BlockHandler} {hashes accepted : List BlockHash}
  {block : Block} {blocks : List Block} {s t u : Store}

/-- The one store came out of the other by connecting the blocks `accepted`, newest first, on top of
the chain `hashes`. -/
structure Grown (C : Crypto) (headers : Set Header) (hashes accepted : List BlockHash) (s t : Store) :
    Prop where
  indexed : Indexed C headers t.dbs (accepted ++ hashes)
  header : t.dbs.header = s.dbs.header
  height : t.dbs.height = s.dbs.height
  events : replayEvents s.events = some hashes → replayEvents t.events = some (accepted ++ hashes)
  later : Later s t

theorem Grown.quiet (hindexed : Indexed C headers s.dbs hashes) (hquiet : Quiet s t)
    (hdbs : t.dbs = s.dbs) : Grown C headers hashes [] s t where
  indexed := hdbs ▸ hindexed
  header := by rw [hdbs]
  height := by rw [hdbs]
  events h := hquiet.events ▸ h
  later := hquiet.faults

theorem Grown.trans {accepted' : List BlockHash} (h : Grown C headers hashes accepted s t)
    (h' : Grown C headers (accepted ++ hashes) accepted' t u) :
    Grown C headers hashes (accepted' ++ accepted) s u where
  indexed := by rw [List.append_assoc]; exact h'.indexed
  header := h'.header.trans h.header
  height := h'.height.trans h.height
  events hs := by rw [List.append_assoc]; exact h'.events (h.events hs)
  later := h.later.trans h'.later

/-- A connected block and its event make the same step. -/
theorem Grown.connect (hhashes : HonestHashes C headers) (hindexed : Indexed C headers s.dbs hashes)
    (hblock : block.header ∈ headers) (hquiet : Quiet s u) {height work : Nat} {coinbase : Transaction}
    {txs : List Transaction} {diff : Pqc.P2mrUtxoBlockDiff} {header : Header}
    (hconnects : Connects C handler block s.dbs u.dbs height coinbase txs diff header work) :
    Grown C headers hashes [C.blockHash block.header] s
      (u.send (connectEvent C block height coinbase)) where
  indexed := hindexed.connect hhashes hblock hconnects
  header := by
    change u.dbs.header = _
    rw [hconnects.tip hindexed hhashes hblock]
    rfl
  height := by
    change u.dbs.height = _
    rw [hconnects.tip hindexed hhashes hblock]
    rfl
  events hs := by
    have hprev : block.header.prevBlockhash = hashes.head?.getD .allZeros := by
      rw [← hconnects.onTip, hindexed.tip]
    change replayEvents (u.events ++ _) = _
    rw [hquiet.events, replayEvents_append hs, connectEvent, Event.apply, if_pos hprev]
    rfl
  later := hquiet.faults

/-- Either no event was sent yet, or the open transaction knows of it. -/
def Sending (s t : Store) : Prop :=
  (t.events = s.events ∧ t.sent = s.sent) ∨ t.sent = s.sent.map fun _ => true

theorem Sending.quiet (h : Quiet s t) : Sending s t := .inl ⟨h.events, h.sent⟩

theorem Sending.send (h : Quiet s t) (event : Event) : Sending s (t.send event) :=
  .inr (by rw [Store.send, h.sent])

theorem Sending.trans (h : Sending s t) (h' : Sending t u) : Sending s u := by
  rcases h' with ⟨hevents, hsent⟩ | hsent
  · rcases h with h | h
    · exact .inl ⟨hevents.trans h.1, hsent.trans h.2⟩
    · exact .inr (hsent.trans h)
  · rcases h with h | h
    · exact .inr (by rw [hsent, h.2])
    · exact .inr (by rw [hsent, h]; cases s.sent <;> rfl)

theorem hashesOf_reverse_cons (block : Block) (blocks : List Block) :
    (hashesOf C (block :: blocks)).reverse =
      (hashesOf C blocks).reverse ++ [C.blockHash block.header] := by
  simp [hashesOf]

/-- A batch connects its blocks one after the other, up to one that is rejected or that fails. -/
theorem handleBlockBatch_wp (hhashes : HonestHashes C headers)
    (hindexed : Indexed C headers s.dbs hashes) (hblocks : ∀ block ∈ blocks, block.header ∈ headers) :
    wp (handler.handleBlockBatch C blocks)
      (fun outcome t => Sending s t ∧ match outcome with
        | none => Grown C headers hashes (hashesOf C blocks).reverse s t
        | some (hash, err) => ∃ accepted rejected rest, blocks = accepted ++ rejected :: rest ∧
            C.blockHash rejected.header = hash ∧ Rejects rejected t.dbs err ∧
            Grown C headers hashes (hashesOf C accepted).reverse s t)
      (fun _ t => ∃ accepted failing rest u, blocks = accepted ++ failing :: rest ∧
        Grown C headers hashes (hashesOf C accepted).reverse s u ∧ Sending s u ∧ Quiet u t ∧
        (Faulty u ∨ Broken C handler failing u.dbs)) s := by
  induction blocks generalizing s hashes with
  | nil => exact ⟨.quiet (.refl s), .quiet hindexed (.refl s) rfl⟩
  | cons block blocks ih =>
      have hblock := hblocks block (by simp)
      have hnone : Grown C headers hashes (hashesOf C []).reverse s s := .quiet hindexed (.refl s) rfl
      unfold BlockHandler.handleBlockBatch
      rw [Program.wp_bind, Program.wp_attempt]
      have hspec : Spec (handler.connectBlock C block) s.dbs _ _ fun e => e.isFatal = true :=
        connectBlock_spec fun _ h => h
      refine (hspec s rfl).mono ?_ ?_
      · rintro event u ⟨hquiet, height, coinbase, txs, diff, header, work, hconnects, rfl⟩
        have hgrown := Grown.connect hhashes hindexed hblock hquiet hconnects
        have hsending := Sending.send hquiet (connectEvent C block height coinbase)
        refine (ih hgrown.indexed fun b hb => hblocks b (by simp [hb])).mono ?_ ?_
        · rintro outcome t ⟨ht, hmatch⟩
          refine ⟨hsending.trans ht, ?_⟩
          rcases outcome with _ | ⟨hash, err⟩
          · rw [hashesOf_reverse_cons]
            exact hgrown.trans hmatch
          · obtain ⟨accepted, rejected, rest, rfl, hhash, hrejects, hrest⟩ := hmatch
            refine ⟨block :: accepted, rejected, rest, rfl, hhash, hrejects, ?_⟩
            rw [hashesOf_reverse_cons]
            exact hgrown.trans hrest
        · rintro e t ⟨accepted, failing, rest, v, rfl, hrest, hv, hfailing⟩
          refine ⟨block :: accepted, failing, rest, v, rfl, ?_, hsending.trans hv, hfailing⟩
          rw [hashesOf_reverse_cons]
          exact hgrown.trans hrest
      · rintro e u ⟨hquiet, hreason⟩
        have hfailing : Faulty s ∨ Broken C handler block s.dbs → ∃ accepted failing rest v,
            block :: blocks = accepted ++ failing :: rest ∧
            Grown C headers hashes (hashesOf C accepted).reverse s v ∧ Sending s v ∧ Quiet v u ∧
            (Faulty v ∨ Broken C handler failing v.dbs) := fun h =>
          ⟨[], block, blocks, s, rfl, hnone, .quiet (.refl s), hquiet, h⟩
        refine Program.wp_ite.mpr ⟨fun hfatal => ?_, fun hfatal => ?_⟩
        · rcases hreason with (⟨hrejects, -⟩ | ⟨-, hbroken⟩) | ⟨hfaulty, -⟩
          · rw [hrejects.notFatal] at hfatal
            cases hfatal
          · exact hfailing (.inr hbroken)
          · exact hfailing (.inl hfaulty)
        · rcases hreason with (⟨hrejects, hdbs⟩ | ⟨hfatal', -⟩) | ⟨-, hfatal'⟩
          · exact ⟨.quiet hquiet, [], block, blocks, rfl, rfl, hdbs ▸ hrejects,
              .quiet hindexed hquiet hdbs⟩
          · exact absurd hfatal' hfatal
          · exact absurd hfatal' hfatal

/-- A committed batch. A failed one leaves the databases as they were; if events were sent before, then
an operation failed after this, or a block was broken. -/
theorem connectBatch_wp (hhashes : HonestHashes C headers) (hindexed : Indexed C headers s.dbs hashes)
    (hblocks : ∀ block ∈ blocks, block.header ∈ headers) :
    wp (handler.connectBatch C blocks)
      (fun outcome t => t.sent = none ∧ match outcome with
        | none => Grown C headers hashes (hashesOf C blocks).reverse s t
        | some (hash, err) => ∃ accepted rejected rest, blocks = accepted ++ rejected :: rest ∧
            C.blockHash rejected.header = hash ∧ Rejects rejected t.dbs err ∧
            Grown C headers hashes (hashesOf C accepted).reverse s t)
      (fun _ t => (s.sent = none → t.sent = none) ∧ Later s t ∧ t.dbs = s.dbs ∧
        (t.events = s.events ∨ (∃ n, s.faults n true = true) ∨
          ∃ accepted failing rest u, blocks = accepted ++ failing :: rest ∧
            Grown C headers hashes (hashesOf C accepted).reverse s u ∧ Broken C handler failing u.dbs))
      s := by
  have hstart : Later s s.next.begin := ⟨1, fun _ => rfl⟩
  have hgrown : ∀ {accepted t}, Grown C headers hashes accepted s.next.begin t →
      Grown C headers hashes accepted s (t.next.finish t.dbs) := fun h =>
    ⟨h.indexed, h.header, h.height, h.events, (hstart.trans h.later).trans ⟨1, fun _ => rfl⟩⟩
  -- An operation that fails when an event was sent fails with this known.
  have hfault : ∀ {u}, Later s u → Sending s.next.begin u → Faulty u →
      u.events = s.events ∨ ∃ n, s.faults n true = true := by
    rintro u ⟨k, hk⟩ (⟨hevents, -⟩ | hsent) ⟨n, hn⟩
    · exact .inl hevents
    · rw [hsent, hk] at hn
      exact .inr ⟨n + k, hn⟩
  refine wp_transaction (fun _ => ⟨id, ⟨1, fun _ => rfl⟩, rfl, .inl rfl⟩) ?_
  rw [Program.wp_bind]
  have hindexed' : Indexed C headers s.next.begin.dbs hashes := hindexed
  refine (handleBlockBatch_wp hhashes hindexed' hblocks).mono ?_ ?_
  · rintro outcome t ⟨hsending, hmatch⟩
    have hlater : Later s.next.begin t := by
      rcases outcome with _ | ⟨hash, err⟩
      · exact hmatch.later
      · obtain ⟨_, _, _, _, _, _, h⟩ := hmatch
        exact h.later
    simp only [commit, Program.wp_bind, wp_access, Program.wp_pure]
    refine ⟨fun hfails => ?_, fun _ => ⟨rfl, ?_⟩⟩
    · have hlater' : Later s t.next := (hstart.trans hlater).trans ⟨1, fun _ => rfl⟩
      refine ⟨fun _ => rfl, hlater', rfl, ?_⟩
      exact (hfault (hstart.trans hlater) hsending ⟨0, hfails⟩).imp_right .inl
    · rcases outcome with _ | ⟨hash, err⟩
      · exact hgrown hmatch
      · obtain ⟨accepted, rejected, rest, hsplit, hhash, hrejects, h⟩ := hmatch
        exact ⟨accepted, rejected, rest, hsplit, hhash, hrejects, hgrown h⟩
  · rintro e t ⟨accepted, failing, rest, u, hsplit, h, hsending, hquiet, hreason⟩
    have hlater := hstart.trans h.later
    have hlater' : Later s t := hlater.trans hquiet.faults
    refine ⟨fun _ => rfl, hlater', rfl, ?_⟩
    rcases hreason with hfaulty | hbroken
    · refine (hfault hlater hsending hfaulty).imp (fun hevents => ?_) .inl
      exact hquiet.events.trans hevents
    · refine .inr (.inr ⟨accepted, failing, rest, u, hsplit, ?_, hbroken⟩)
      exact ⟨h.indexed, h.header, h.height, h.events, hlater⟩

end

end Bip360Enforcer.Validator
