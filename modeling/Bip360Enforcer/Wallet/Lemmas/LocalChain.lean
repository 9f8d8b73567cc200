import Bip360Enforcer.Validator.Theorems.Infos
import Bip360Enforcer.Wallet.LocalChain

/-!
# The loops that connect blocks to the local chain
-/

namespace Bip360Enforcer.Wallet

open Program (wp)

variable {σ κ υ α ε : Type} {C : Crypto} {B : BdkWallet σ κ υ} {env : Surroundings σ κ υ}
  {main : Nat → Option BlockHash} {st : SyncState σ} {bdk : σ} {block : Block} {fuel height : Nat}

/-! ## What is relied on -/

/-- The block is that of the chain `main` at this height. -/
structure OnMain (C : Crypto) (main : Nat → Option BlockHash) (block : Block) (height : Nat) : Prop where
  here : main height = some (C.blockHash block.header)
  parent : ∀ below, height = below + 1 → main below = some block.header.prevBlockhash

/-- What BDK says of its local chain, into which blocks of `main` are introduced, and of the error with which
a block is refused. -/
structure LocalChain (C : Crypto) (B : BdkWallet σ κ υ) (main : Nat → Option BlockHash) : Prop where
  /-- A block is introduced at its height, with its parent below it. -/
  applied : ∀ {block height bdk bdk'}, OnMain C main block height →
    B.applyBlock block height bdk = .ok bdk' →
    B.blockAt bdk' height = some (C.blockHash block.header) ∧
      ∀ below, height = below + 1 → B.blockAt bdk' below = some block.header.prevBlockhash
  below : ∀ {block height bdk bdk'}, OnMain C main block height →
    B.applyBlock block height bdk = .ok bdk' →
    ∀ other, other + 1 < height → B.blockAt bdk' other = B.blockAt bdk other
  /-- Blocks above it may be invalidated, but none are added. -/
  above : ∀ {block height bdk bdk'}, OnMain C main block height →
    B.applyBlock block height bdk = .ok bdk' →
    ∀ other, height < other → B.blockAt bdk' other = B.blockAt bdk other ∨ B.blockAt bdk' other = none
  /-- A block of the local chain is introduced again without an effect above it. -/
  again : ∀ {block height bdk}, OnMain C main block height →
    B.blockAt bdk height = some (C.blockHash block.header) →
    ∃ bdk', B.applyBlock block height bdk = .ok bdk' ∧
      ∀ other, height < other → B.blockAt bdk' other = B.blockAt bdk other
  /-- A block connects to its parent, unless it is not clear what becomes of a block further up. -/
  connects : ∀ {block below bdk err}, OnMain C main block (below + 1) →
    B.blockAt bdk below = some block.header.prevBlockhash →
    B.applyBlock block (below + 1) bdk = .error err → below < err.tryIncludeHeight
  /-- The height to include is that of a block of the chain, with none between it and the parent. -/
  suggests : ∀ {block height bdk err}, OnMain C main block height →
    B.applyBlock block height bdk = .error err →
    (B.blockAt bdk err.tryIncludeHeight).isSome ∧
      ∀ other, err.tryIncludeHeight < other → other + 1 < height → B.blockAt bdk other = none

/-- As long as it answers, the node answers with the blocks of the chain `main`. -/
structure HonestNode (C : Crypto) (env : Surroundings σ κ υ) (main : Nat → Option BlockHash) : Prop where
  blockhash : ∀ n height blockHash, env.getblockhash n height = some blockHash →
    main height = some blockHash
  block : ∀ n blockHash block, env.getBlock n blockHash = some block →
    C.blockHash block.header = blockHash
  parent : ∀ n blockHash block below, env.getBlock n blockHash = some block →
    main (below + 1) = some blockHash → main below = some block.header.prevBlockhash

theorem HonestNode.onMain (h : HonestNode C env main) {n : Nat} {blockHash : BlockHash}
    (hblock : env.getBlock n blockHash = some block) (hmain : main height = some blockHash) :
    OnMain C main block height := by
  refine ⟨by rw [hmain, h.block n blockHash block hblock], ?_⟩
  rintro below rfl
  exact h.parent n blockHash block below hblock hmain

/-! ## Single steps -/

/-- The error of a loop that stops, as it should. -/
def Stops : SyncWalletError → Prop
  | .diverged | .panicked => False
  | _ => True

theorem Stops.ne {e : SyncWalletError} (h : Stops e) : e ≠ .diverged ∧ e ≠ .panicked := by
  constructor
  · rintro rfl
    exact h
  · rintro rfl
    exact h

theorem call_wp {f : Nat → Option α} {e : SyncWalletError} {post : α → SyncState σ → Prop}
    {failed : SyncWalletError → SyncState σ → Prop} :
    wp (call f e) post failed st ↔
      (∀ a, f st.calls = some a → post a { st with calls := st.calls + 1 }) ∧
        (f st.calls = none → failed e { st with calls := st.calls + 1 }) := by
  rw [call, Program.wp_bind, Program.wp_get, Program.wp_bind, Program.wp_modify]
  cases f st.calls with
  | none => simp
  | some a => simp

theorem handleConnectBlock_wp :
    wp (handleConnectBlock B env block height)
      (fun res t => ∃ bdk, st.bdk = some bdk ∧
        match res with
        | .error err => B.applyBlock block height bdk = .error err ∧ t = st
        | .ok () => ∃ bdk', B.applyBlock block height bdk = .ok bdk' ∧ t.bdk = some bdk')
      (fun e _ => Stops e) st := by
  rw [handleConnectBlock, Program.wp_bind, readWallet, Program.wp_bind, Program.wp_get]
  cases hbdk : st.bdk with
  | none => exact trivial
  | some bdk =>
      rw [Program.wp_pure]
      cases happly : B.applyBlock block height bdk with
      | error err => exact ⟨bdk, rfl, happly, rfl⟩
      | ok bdk' =>
          rw [Program.wp_bind, putWallet, Program.wp_bind, Program.wp_modify, persist, call_wp]
          exact ⟨fun _ _ => ⟨bdk, rfl, bdk', happly, rfl⟩, fun _ => trivial⟩

theorem tryGetHeaderInfos_single {blockHash : BlockHash} {s : Validator.Store} :
    wp (Validator.BlockHashDbs.tryGetHeaderInfos C blockHash 0)
      (fun found _ => ∀ infos ∈ found, infos.tail = []) (fun _ _ => True) s := by
  rw [Validator.BlockHashDbs.tryGetHeaderInfos, Program.wp_bind]
  refine (Program.wp_self _ s).mono ?_ fun _ _ _ => trivial
  intro found t _
  cases found with
  | none => exact fun infos hin => by cases hin
  | some info =>
      intro infos hin
      obtain rfl := Option.some.inj hin
      rfl

/-- Without ancestors, there is one info. -/
theorem getBlockInfos_single {blockHash : BlockHash} {s : Validator.Store} :
    wp (Validator.getBlockInfos C blockHash 0) (fun infos _ => infos.tail = []) (fun _ _ => True) s := by
  rw [Validator.getBlockInfos, Validator.tryGetBlockInfos]
  simp only [Program.wp_bind]
  refine (Program.wp_self _ s).mono ?_ fun _ _ _ => trivial
  rintro - t -
  rw [Program.wp_bind]
  refine tryGetHeaderInfos_single.mono ?_ fun _ _ _ => trivial
  intro found t htail
  cases found with
  | none => exact trivial
  | some headerInfos =>
      have hnil : headerInfos.tail = [] := htail headerInfos rfl
      rw [Program.wp_bind]
      refine (Program.wp_self _ t).mono ?_ fun _ _ _ => trivial
      intro info t _
      cases info with
      | none => exact trivial
      | some info =>
          rw [hnil]
          rfl

theorem onStore_wp {f : ε → SyncWalletError} {x : Validator.Db ε α} {post : α → Prop}
    (h : wp x (fun a _ => post a) (fun _ _ => True) st.store) (hf : ∀ e, Stops (f e)) :
    wp (onStore f x) (fun a t => post a ∧ t.bdk = st.bdk) (fun e _ => Stops e) st := by
  rw [onStore, Program.wp_mapError, Program.wp_focus]
  exact h.mono (fun a _ ha => ⟨ha, rfl⟩) fun e _ _ => hf e

theorem onStore_spec {f : ε → SyncWalletError} {x : Validator.Db ε α} {post : α → Prop}
    {failed : ε → Validator.Dbs → Prop} {fault : ε → Prop}
    (h : Validator.Spec x st.store.dbs (fun a d => d = st.store.dbs ∧ post a) failed fault)
    (hf : ∀ e, Stops (f e)) :
    wp (onStore f x) (fun a t => post a ∧ t.bdk = st.bdk ∧ t.store.dbs = st.store.dbs)
      (fun e _ => Stops e) st := by
  rw [onStore, Program.wp_mapError, Program.wp_focus]
  exact (h _ rfl).mono (fun a _ ha => ⟨ha.2.2, rfl, ha.2.1⟩) fun e _ _ => hf e

theorem includedBlock_wp (hnode : HonestNode C env main) {held : Option Block}
    (hheld : ∀ block ∈ held, OnMain C main block height) :
    wp (includedBlock env ⟨height, held⟩) (fun block t => OnMain C main block height ∧ t.bdk = st.bdk)
      (fun e _ => Stops e) st := by
  cases held with
  | some block => exact ⟨hheld block rfl, rfl⟩
  | none =>
      simp only [includedBlock, Program.wp_bind]
      rw [call_wp]
      refine ⟨fun blockHash hhash => ?_, fun _ => trivial⟩
      rw [fetchBlock, call_wp]
      exact ⟨fun block hfetched => ⟨hnode.onMain hfetched (hnode.blockhash _ _ _ hhash), rfl⟩,
        fun _ => trivial⟩

/-! ## Missing blocks -/

/-- One round of the loop: the block on the stack connects, or the one before it comes on top. -/
theorem connectTryIncludes_step (hnode : HonestNode C env main) {held : Option Block}
    {tryIncludes : List TryInclude} {post : Unit → SyncState σ → Prop}
    (hheld : ∀ block ∈ held, OnMain C main block height)
    (hround : ∀ block bdk, OnMain C main block height → st.bdk = some bdk →
      (∀ bdk' t, B.applyBlock block height bdk = .ok bdk' → t.bdk = some bdk' →
        wp (connectTryIncludes C B env fuel tryIncludes) post (fun e _ => Stops e) t) ∧
      ∀ err t, B.applyBlock block height bdk = .error err → t.bdk = some bdk →
        err.tryIncludeHeight < height →
        wp (connectTryIncludes C B env fuel (⟨height - 1, none⟩ :: ⟨height, some block⟩ :: tryIncludes))
          post (fun e _ => Stops e) t) :
    wp (connectTryIncludes C B env (fuel + 1) (⟨height, held⟩ :: tryIncludes)) post (fun e _ => Stops e)
      st := by
  rw [connectTryIncludes, Program.wp_bind]
  refine (includedBlock_wp hnode hheld).mono ?_ fun _ _ h => h
  rintro block t ⟨hmain, ht⟩
  rw [Program.wp_bind]
  refine (onStore_wp getBlockInfos_single fun e => show Stops (.getBlockInfos e) from trivial).mono ?_
    fun _ _ h => h
  rintro infos u ⟨htail, hu⟩
  have hlength : infos.toList.length = 1 := by rw [Validator.NonEmpty.toList, htail]; rfl
  refine Program.wp_ite.mpr ⟨fun hne => absurd hlength hne, fun _ => ?_⟩
  rw [Program.wp_bind]
  refine handleConnectBlock_wp.mono ?_ fun _ _ h => h
  rintro res v ⟨bdk, hbdk, hres⟩
  obtain ⟨hok, herror⟩ := hround block bdk hmain (by rw [← ht, ← hu, hbdk])
  cases res with
  | ok _ =>
      obtain ⟨bdk', happly, hv⟩ := hres
      exact hok bdk' v happly hv
  | error err =>
      obtain ⟨happly, rfl⟩ := hres
      exact Program.wp_ite.mpr ⟨fun hlt => herror err v happly hbdk hlt, fun _ => trivial⟩

/-- The local chain has the blocks of `main` from `low` to `high`. -/
def Follows (B : BdkWallet σ κ υ) (main : Nat → Option BlockHash) (bdk : σ) (low high : Nat) : Prop :=
  ∀ height, low ≤ height → height ≤ high → (main height).isSome ∧ B.blockAt bdk height = main height

/-- The local chain has come to follow `main` up to `height`, and has got no blocks above it. -/
structure Reaches (B : BdkWallet σ κ υ) (main : Nat → Option BlockHash) (height : Nat) (bdk bdk' : σ) :
    Prop where
  follows : ∃ low ≤ height, Follows B main bdk' low height
  above : ∀ other, height < other → B.blockAt bdk' other = B.blockAt bdk other ∨
    B.blockAt bdk' other = none

theorem Reaches.of_applied (hB : LocalChain C B main) (hmain : OnMain C main block height) {bdk' : σ}
    (happly : B.applyBlock block height bdk = .ok bdk') : Reaches B main height bdk bdk' := by
  refine ⟨⟨height, Nat.le_refl _, fun other hlow hhigh => ?_⟩, hB.above hmain happly⟩
  obtain rfl := Nat.le_antisymm hhigh hlow
  rw [hmain.here]
  exact ⟨rfl, (hB.applied hmain happly).1⟩

/-- The next block comes on top. -/
theorem Reaches.next (hB : LocalChain C B main) {below : Nat} {bdk' bdk'' : σ}
    (h : Reaches B main below bdk bdk') (hmain : OnMain C main block (below + 1))
    (happly : B.applyBlock block (below + 1) bdk' = .ok bdk'') : Reaches B main (below + 1) bdk bdk'' := by
  obtain ⟨low, hle, hfollows⟩ := h.follows
  obtain ⟨hat, hparent⟩ := hB.applied hmain happly
  refine ⟨⟨low, Nat.le_succ_of_le hle, fun other hlow hhigh => ?_⟩, fun other hother => ?_⟩
  · rcases Nat.lt_or_ge other below with hlt | hge
    · obtain ⟨hsome, hsame⟩ := hfollows other hlow (Nat.le_of_lt hlt)
      exact ⟨hsome, (hB.below hmain happly other (by omega)).trans hsame⟩
    · rcases Nat.eq_or_lt_of_le hge with rfl | hlt
      · have hprev := hmain.parent below rfl
        rw [hprev]
        exact ⟨rfl, hparent below rfl⟩
      · obtain rfl : other = below + 1 := by omega
        rw [hmain.here]
        exact ⟨rfl, hat⟩
  · rcases hB.above hmain happly other hother with hsame | hnone
    · rw [hsame]
      exact h.above other (by omega)
    · exact .inr hnone

/-- What is on top of the stack is connected within so many rounds. -/
theorem connectTryIncludes_top (hB : LocalChain C B main) (hnode : HonestNode C env main)
    {held : Option Block} {tryIncludes : List TryInclude} {post : Unit → SyncState σ → Prop}
    (hheld : ∀ block ∈ held, OnMain C main block height)
    (hrest : ∀ bdk bdk' t, st.bdk = some bdk → t.bdk = some bdk' → Reaches B main height bdk bdk' →
      ∀ n, fuel ≤ n → wp (connectTryIncludes C B env n tryIncludes) post (fun e _ => Stops e) t) :
    wp (connectTryIncludes C B env (fuel + (2 * height + 1)) (⟨height, held⟩ :: tryIncludes)) post
      (fun e _ => Stops e) st := by
  induction height generalizing held tryIncludes st fuel with
  | zero =>
      refine connectTryIncludes_step hnode hheld fun block bdk hmain hbdk => ⟨?_, ?_⟩
      · intro bdk' t happly ht
        exact hrest bdk bdk' t hbdk ht (.of_applied hB hmain happly) _ (Nat.le_refl _)
      · intro err t _ _ hlt
        cases hlt
  | succ below ih =>
      have hfuel : fuel + (2 * (below + 1) + 1) = (fuel + 1 + (2 * below + 1)) + 1 := by omega
      rw [hfuel]
      refine connectTryIncludes_step hnode hheld fun block bdk hmain hbdk => ⟨?_, ?_⟩
      · intro bdk' t happly ht
        exact hrest bdk bdk' t hbdk ht (.of_applied hB hmain happly) _ (by omega)
      · intro err t _ ht _
        refine ih (fun block hin => by cases hin) ?_
        intro first bdk' u hfirst hu hreaches n hn
        obtain rfl := Option.some.inj (ht.symm.trans hfirst)
        -- The parent is there now: the block connects, or the suggested height is no lower.
        obtain ⟨n, rfl⟩ := Nat.exists_eq_add_of_le' hn
        rw [← Nat.add_assoc]
        have hheld' : ∀ other ∈ some block, OnMain C main other (below + 1) := by
          intro other hother
          obtain rfl := Option.some.inj hother
          exact hmain
        refine connectTryIncludes_step hnode hheld' fun again bdk'' hagain hbdk'' => ⟨?_, ?_⟩
        · obtain rfl := Option.some.inj (hu.symm.trans hbdk'')
          intro bdk'' v happly hv
          exact hrest bdk bdk'' v hbdk hv (hreaches.next hB hagain happly) _ (by omega)
        · obtain rfl := Option.some.inj (hu.symm.trans hbdk'')
          intro err' v happly _ hlt
          obtain ⟨low, hle, hfollows⟩ := hreaches.follows
          have hparent := (hfollows below hle (Nat.le_refl _)).2.trans (hagain.parent below rfl)
          have hge := hB.connects hagain hparent happly
          omega

/-- The missing block and those that are missing below it are connected, in a number of rounds that is
bounded by its height. -/
theorem connectMissingBlock_wp (hB : LocalChain C B main) (hnode : HonestNode C env main)
    (hfuel : 2 * height + 1 ≤ fuel) :
    wp (connectMissingBlock C B env fuel height)
      (fun _ t => ∃ bdk bdk', st.bdk = some bdk ∧ t.bdk = some bdk' ∧ Reaches B main height bdk bdk')
      (fun e _ => Stops e) st := by
  obtain ⟨n, rfl⟩ := Nat.exists_eq_add_of_le' hfuel
  refine connectTryIncludes_top hB hnode (fun block hin => by cases hin) ?_
  intro bdk bdk' t hbdk ht hreaches n _
  have hdone : connectTryIncludes C B env n [] = pure () := by cases n <;> rfl
  rw [hdone]
  exact ⟨bdk, bdk', hbdk, ht, hreaches⟩

/-! ## A block and what is missing below it -/

/-- The block has just been connected. -/
def Connected (B : BdkWallet σ κ υ) (block : Block) (height : Nat) (t : SyncState σ) : Prop :=
  ∃ bdk bdk', B.applyBlock block height bdk = .ok bdk' ∧ t.bdk = some bdk'

theorem connectWithMissing_connected {tries : Nat} :
    wp (connectWithMissing C B env fuel block height tries)
      (fun _ t => 0 < tries ∧ Connected B block height t) (fun _ _ => True) st := by
  induction tries generalizing st with
  | zero => exact trivial
  | succ tries ih =>
      rw [connectWithMissing, Program.wp_bind]
      refine handleConnectBlock_wp.mono ?_ fun _ _ _ => trivial
      rintro res t ⟨bdk, hbdk, hres⟩
      cases res with
      | ok _ =>
          obtain ⟨bdk', happly, ht⟩ := hres
          exact ⟨Nat.succ_pos _, bdk, bdk', happly, ht⟩
      | error err =>
          rw [Program.wp_bind]
          refine (Program.wp_self _ t).mono (fun _ _ _ => ?_) fun _ _ _ => trivial
          exact ih.mono (fun _ _ hu => ⟨Nat.succ_pos _, hu.2⟩) fun _ _ _ => trivial

/-- A block of the local chain connects at once. -/
theorem connectWithMissing_again (hB : LocalChain C B main) (hmain : OnMain C main block height)
    {tries : Nat} (hbdk : st.bdk = some bdk)
    (hat : B.blockAt bdk height = some (C.blockHash block.header)) :
    wp (connectWithMissing C B env fuel block height (tries + 1))
      (fun _ t => ∃ bdk', B.applyBlock block height bdk = .ok bdk' ∧ t.bdk = some bdk')
      (fun e _ => Stops e) st := by
  rw [connectWithMissing, Program.wp_bind]
  refine handleConnectBlock_wp.mono ?_ fun _ _ h => h
  rintro res t ⟨first, hfirst, hres⟩
  obtain rfl := Option.some.inj (hbdk.symm.trans hfirst)
  obtain ⟨bdk', happly, -⟩ := hB.again hmain hat
  cases res with
  | ok _ => exact hres
  | error err =>
      rw [happly] at hres
      cases hres.1

/-- A block connects at once to a parent on top of which there is nothing. -/
theorem connectWithMissing_onTop (hB : LocalChain C B main) {below tries : Nat}
    (hmain : OnMain C main block (below + 1)) (hbdk : st.bdk = some bdk)
    (hparent : B.blockAt bdk below = some block.header.prevBlockhash)
    (hnone : ∀ other, below < other → B.blockAt bdk other = none) :
    wp (connectWithMissing C B env fuel block (below + 1) (tries + 1)) (fun _ _ => True)
      (fun e _ => Stops e) st := by
  rw [connectWithMissing, Program.wp_bind]
  refine handleConnectBlock_wp.mono ?_ fun _ _ h => h
  rintro res t ⟨first, hfirst, hres⟩
  obtain rfl := Option.some.inj (hbdk.symm.trans hfirst)
  cases res with
  | ok _ => exact trivial
  | error err =>
      obtain ⟨hsome, -⟩ := hB.suggests hmain hres.1
      rw [hnone _ (hB.connects hmain hparent hres.1)] at hsome
      cases hsome

/-- From any suggestion on, the block is at most `n` heights away. -/
def Within (B : BdkWallet σ κ υ) (height n : Nat) (bdk : σ) : Prop :=
  ∀ low, (∀ other, low < other → other + 1 < height → B.blockAt bdk other = none) → height ≤ low + 1 + n

/-- The suggested heights come closer to the block with every round. -/
theorem connectWithMissing_stops (hB : LocalChain C B main) (hnode : HonestNode C env main)
    (hmain : OnMain C main block height) (hfuel : 2 * height + 1 ≤ fuel) {n tries : Nat}
    (htries : n + 2 ≤ tries) (hbdk : st.bdk = some bdk)
    (hnone : ∀ other, height ≤ other → B.blockAt bdk other = none) (hwithin : Within B height n bdk) :
    wp (connectWithMissing C B env fuel block height tries) (fun _ _ => True) (fun e _ => Stops e) st := by
  induction tries generalizing st bdk n with
  | zero => cases htries
  | succ tries ih =>
      rw [connectWithMissing, Program.wp_bind]
      refine handleConnectBlock_wp.mono ?_ fun _ _ h => h
      rintro res t ⟨first, hfirst, hres⟩
      obtain rfl := Option.some.inj (hbdk.symm.trans hfirst)
      cases res with
      | ok _ => exact trivial
      | error err =>
          obtain ⟨hrefused, rfl⟩ := hres
          obtain ⟨hsome, hbetween⟩ := hB.suggests hmain hrefused
          have hlow : err.tryIncludeHeight < height := by
            by_contra hge
            rw [hnone _ (Nat.le_of_not_lt hge)] at hsome
            cases hsome
          have hnear := hwithin err.tryIncludeHeight hbetween
          obtain ⟨tries, rfl⟩ := Nat.exists_eq_add_of_le' (show 1 ≤ tries by omega)
          rw [Program.wp_bind]
          refine (connectMissingBlock_wp hB hnode (by omega)).mono ?_ fun _ _ h => h
          rintro - u ⟨second, bdk', hsecond, hu, hreaches⟩
          obtain rfl := Option.some.inj (hbdk.symm.trans hsecond)
          obtain ⟨low, hle, hfollows⟩ := hreaches.follows
          obtain ⟨hthere, hsame⟩ := hfollows (err.tryIncludeHeight + 1) hle (Nat.le_refl _)
          rcases Nat.eq_or_lt_of_le (show err.tryIncludeHeight + 1 ≤ height from hlow) with heq | hlt
          · rw [heq, hmain.here] at hsame
            exact (connectWithMissing_again hB hmain hu hsame).mono (fun _ _ _ => trivial) fun _ _ h => h
          · have hnone' : ∀ other, height ≤ other → B.blockAt bdk' other = none := by
              intro other hother
              rcases hreaches.above other (by omega) with hkept | hgone
              · rw [hkept, hnone other hother]
              · exact hgone
            obtain ⟨below, rfl⟩ := Nat.exists_eq_add_of_le' (show 1 ≤ height by omega)
            rcases Nat.eq_or_lt_of_le (show err.tryIncludeHeight + 1 ≤ below by omega) with heq | hlt'
            · rw [heq, hmain.parent below rfl] at hsame
              exact connectWithMissing_onTop hB hmain hu hsame fun other hother => hnone' other hother
            · refine ih (n := n - 1) (by omega) hu hnone' fun low hgap => ?_
              by_contra hfar
              have hgone := hgap (err.tryIncludeHeight + 1) (by omega) (by omega)
              rw [hsame] at hgone
              rw [hgone] at hthere
              cases hthere

/-! ## The blocks above the tip of the wallet -/

/-- The infos of blocks of `main`, the first of which has `n - 1` below it. -/
def Descends (main : Nat → Option BlockHash) :
    Nat → List (Validator.HeaderInfo × Validator.BlockInfo) → Prop
  | _, [] => True
  | 0, _ :: _ => False
  | n + 1, info :: infos =>
      info.1.height = n ∧ main n = some info.1.blockHash ∧ Descends main n infos

/-- The block that the caller has is that of `main`, wherever its hash is there. -/
def GivenOnMain (C : Crypto) (main : Nat → Option BlockHash) (newTipHash : BlockHash)
    (given : Option Block) : Prop :=
  ∀ block ∈ given, ∀ height, main height = some newTipHash → OnMain C main block height

theorem blockToConnect_wp (hnode : HonestNode C env main) {newTipHash blockHash : BlockHash}
    {given : Option Block} (hgiven : GivenOnMain C main newTipHash given)
    (hmain : main height = some blockHash) :
    wp (blockToConnect env newTipHash given blockHash)
      (fun block t => OnMain C main block height ∧ t.bdk = st.bdk) (fun e _ => Stops e) st := by
  rw [blockToConnect]
  cases hfilter : given.filter fun _ => blockHash = newTipHash with
  | some block =>
      obtain ⟨hsome, heq⟩ := Option.filter_eq_some_iff.mp hfilter
      obtain rfl : blockHash = newTipHash := by simpa using heq
      exact ⟨hgiven block hsome height hmain, rfl⟩
  | none =>
      rw [fetchBlock, call_wp]
      exact ⟨fun block hfetched => ⟨hnode.onMain hfetched hmain, rfl⟩, fun _ => trivial⟩

/-- Below a block that is in the local chain, the rest of the blocks connect at once. -/
theorem processBlocks_rest (hB : LocalChain C B main) (hnode : HonestNode C env main)
    {newTipHash : BlockHash} {given : Option Block} (hgiven : GivenOnMain C main newTipHash given)
    {infos : List (Validator.HeaderInfo × Validator.BlockInfo)} {n : Nat}
    (hinfos : Descends main n infos) (hbdk : st.bdk = some bdk)
    (hat : ∀ height, n = height + 1 → B.blockAt bdk height = main height) :
    wp (processBlocks C B env (fuel + 1) newTipHash given infos)
      (fun _ t => ∃ bdk', t.bdk = some bdk' ∧
        (∀ height, n ≤ height + infos.length → height < n → (main height).isSome ∧
          B.blockAt bdk' height = main height) ∧
        ∀ other, n ≤ other → B.blockAt bdk' other = B.blockAt bdk other)
      (fun e _ => Stops e) st := by
  induction infos generalizing n st bdk with
  | nil => exact ⟨bdk, hbdk, fun height hle hlt => absurd hlt (Nat.not_lt.mpr hle), fun _ _ => rfl⟩
  | cons info infos ih =>
      cases n with
      | zero => exact hinfos.elim
      | succ n =>
          obtain ⟨hheight, hmain, hrest⟩ := hinfos
          rw [processBlocks, Program.wp_bind]
          refine (blockToConnect_wp hnode hgiven hmain).mono ?_ fun _ _ h => h
          rintro block t ⟨honMain, ht⟩
          rw [hheight, Program.wp_bind]
          have hbdk' : t.bdk = some bdk := ht.trans hbdk
          have hthere : B.blockAt bdk n = some (C.blockHash block.header) := by rw [hat n rfl, honMain.here]
          refine (connectWithMissing_again hB honMain hbdk' hthere).mono ?_ fun _ _ h => h
          rintro - u ⟨bdk', happly, hu⟩
          obtain ⟨hnow, hparent⟩ := hB.applied honMain happly
          obtain ⟨bdk'', happly', habove⟩ := hB.again honMain hthere
          obtain rfl := Except.ok.inj (happly.symm.trans happly')
          refine (ih hrest hu fun height heq => ?_).mono ?_ fun _ _ h => h
          · rw [hparent height heq, honMain.parent height heq]
          · rintro - v ⟨bdk'', hv, hfollows, hkept⟩
            refine ⟨bdk'', hv, fun height hle hlt => ?_, fun other hother => ?_⟩
            · rcases Nat.eq_or_lt_of_le (Nat.le_of_lt_succ hlt) with rfl | hlt'
              · rw [hkept height (Nat.le_refl _), hnow, honMain.here]
                exact ⟨rfl, rfl⟩
              · exact hfollows height (by rw [List.length_cons] at hle; omega) hlt'
            · rw [hkept other (Nat.le_of_succ_le hother), habove other hother]

/-- What is asked for a loop not to run on: rounds enough, and no block from the new tip on. -/
structure Behind (B : BdkWallet σ κ υ) (fuel height : Nat) (st : SyncState σ) : Prop where
  rounds : 2 * height + 2 ≤ fuel
  none : ∀ bdk, st.bdk = some bdk → ∀ other, height ≤ other → B.blockAt bdk other = Option.none

theorem connectWithMissing_wp (hB : LocalChain C B main) (hnode : HonestNode C env main)
    (hmain : OnMain C main block height) :
    wp (connectWithMissing C B env fuel block height fuel)
      (fun _ t => 0 < fuel ∧ Connected B block height t) (fun e _ => Behind B fuel height st → Stops e) st := by
  refine Program.wp_iff.mpr ⟨fun _ _ => connectWithMissing_connected.ok, fun e t herror hbehind => ?_⟩
  cases hbdk : st.bdk with
  | none =>
      obtain ⟨n, rfl⟩ := Nat.exists_eq_add_of_le' (Nat.le_trans (by omega : 1 ≤ 2 * height + 2) hbehind.rounds)
      rw [connectWithMissing, handleConnectBlock, readWallet] at herror
      simp [Program.bind_apply, Program.get, hbdk, Program.fail] at herror
      rw [← herror.1]
      exact trivial
  | some bdk =>
      have hrounds := hbehind.rounds
      have hnone := hbehind.none bdk hbdk
      exact (connectWithMissing_stops hB hnode hmain (n := height) (by omega) (by omega) hbdk hnone
        fun low _ => by omega).error herror

/-- The blocks down from the new tip are connected. -/
theorem processBlocks_follows (hB : LocalChain C B main) (hnode : HonestNode C env main)
    {newTipHash : BlockHash} {given : Option Block} (hgiven : GivenOnMain C main newTipHash given)
    {infos : List (Validator.HeaderInfo × Validator.BlockInfo)} (hne : infos ≠ [])
    (hinfos : Descends main (height + 1) infos) :
    wp (processBlocks C B env fuel newTipHash given infos)
      (fun _ t => ∃ bdk', t.bdk = some bdk' ∧ Follows B main bdk' (height + 1 - infos.length) height)
      (fun e _ => Behind B fuel height st → Stops e) st := by
  cases infos with
  | nil => exact absurd rfl hne
  | cons info infos =>
      obtain ⟨hheight, hmain, hrest⟩ := hinfos
      rw [processBlocks, Program.wp_bind]
      refine (blockToConnect_wp hnode hgiven hmain).mono ?_ fun _ _ h _ => h
      rintro block t ⟨honMain, ht⟩
      rw [hheight, Program.wp_bind]
      refine (connectWithMissing_wp hB hnode honMain).mono ?_ fun e u h hbehind => ?_
      · rintro - u ⟨hpos, before, bdk, happly, hu⟩
        obtain ⟨hnow, hparent⟩ := hB.applied honMain happly
        obtain ⟨fuel, rfl⟩ := Nat.exists_eq_add_of_le' hpos
        refine (processBlocks_rest hB hnode hgiven hrest hu fun below heq => ?_).mono ?_ fun _ _ h _ => h
        · rw [hparent below heq, honMain.parent below heq]
        · rintro - v ⟨bdk', hv, hfollows, hkept⟩
          refine ⟨bdk', hv, fun other hlow hhigh => ?_⟩
          rcases Nat.eq_or_lt_of_le hhigh with rfl | hlt
          · rw [hkept other (Nat.le_refl _), hnow, honMain.here]
            exact ⟨rfl, rfl⟩
          · rw [List.length_cons] at hlow
            exact hfollows other (by omega) hlt
      · exact h ⟨hbehind.rounds, fun bdk hbdk => hbehind.none bdk (by rw [← ht, hbdk])⟩

/-! ## Closing the gap -/

/-- The databases of the validator are only read, and no loop runs on. -/
def Reads (st : SyncState σ) (x : SyncM σ α) : Prop :=
  wp x (fun _ t => t.store.dbs = st.store.dbs) (fun e _ => Stops e) st

theorem Reads.bind {β : Type} {x : SyncM σ α} {f : α → SyncM σ β} (hx : Reads st x)
    (hf : ∀ a t, t.store.dbs = st.store.dbs → Reads t (f a)) : Reads st (x >>= f) := by
  rw [Reads, Program.wp_bind]
  refine hx.mono ?_ fun _ _ h => h
  intro a t ht
  exact (hf a t ht).mono (fun _ _ hu => hu.trans ht) fun _ _ h => h

theorem Reads.fail {e : SyncWalletError} (he : Stops e) : Reads st (Program.fail e : SyncM σ α) := he

theorem Reads.pure {a : α} : Reads st (pure a : SyncM σ α) := rfl

theorem Reads.call {f : Nat → Option α} {e : SyncWalletError} (he : Stops e) : Reads st (call f e) :=
  call_wp.mpr ⟨fun _ _ => rfl, fun _ => he⟩

theorem Reads.get : Reads st (Program.get : SyncM σ (SyncState σ)) := rfl

theorem Reads.setBdk {bdk : Option σ} :
    Reads st (Program.modify fun st => { st with bdk := bdk } : SyncM σ Unit) := rfl

theorem Reads.readWallet : Reads st (readWallet : SyncM σ σ) := by
  rw [Reads, Wallet.readWallet, Program.wp_bind, Program.wp_get]
  cases st.bdk with
  | none => exact trivial
  | some bdk => rfl

theorem Reads.getTip : Reads st (getTip B) := Reads.readWallet.bind fun _ _ _ => .pure

theorem Reads.putWallet : Reads st (putWallet env bdk) := by
  rw [Reads, Wallet.putWallet, Program.wp_bind, Program.wp_modify, persist]
  exact Reads.call trivial

theorem Reads.listHeaders {tipHeight : Nat} :
    Reads st (onStore .listHeaders (Validator.listHeaders tipHeight)) := by
  rw [Reads, onStore, Program.wp_mapError, Program.wp_focus, Validator.listHeaders, Program.wp_bind,
    Validator.wp_access]
  refine ⟨fun _ => trivial, fun _ => ?_⟩
  rw [Validator.wp_read]
  exact ⟨fun _ => trivial, fun _ => rfl⟩

theorem Reads.getChainCheckpoint {upToHeight : Option Nat} :
    Reads st (getChainCheckpoint B bdk upToHeight) := by
  refine Reads.listHeaders.bind fun headers t _ => ?_
  dsimp only
  split
  · exact .pure
  · exact .fail trivial

theorem Reads.ofExcept {r : Except ε α} {f : ε → SyncWalletError} (hf : ∀ e, Stops (f e)) :
    Reads st (Program.ofExcept (r.mapError f)) := by
  cases r with
  | error e => exact hf e
  | ok a => rfl

theorem Reads.applyUpdate {update : υ} : Reads st (applyUpdate B env update bdk) :=
  Reads.bind (.ofExcept fun _ => trivial) fun _ _ _ => .putWallet

theorem Reads.skipToBirthday {newTipHeight : Nat} {walletTip : BlockId} :
    Reads st (skipToBirthday B env newTipHeight walletTip) := by
  rw [Wallet.skipToBirthday]
  split
  · exact .pure
  · dsimp only
    split
    · refine Reads.bind (Reads.readWallet.bind fun _ _ _ => ?_) fun _ _ _ => .getTip
      exact Reads.getChainCheckpoint.bind fun _ _ _ => .applyUpdate
    · exact .pure

theorem Reads.fullScanWallet : Reads st (fullScanWallet B env fuel) := by
  rw [Wallet.fullScanWallet]
  split
  · exact .fail trivial
  · refine Reads.readWallet.bind fun _ _ _ => Reads.get.bind fun _ _ _ => ?_
    refine Reads.bind (.ofExcept fun _ => trivial) fun _ _ _ => Reads.setBdk.bind fun _ _ _ => ?_
    refine Reads.getChainCheckpoint.bind fun _ _ _ => Reads.bind (.call trivial) fun _ _ _ => ?_
    exact Reads.applyUpdate.bind fun _ _ _ => Reads.getTip.bind fun _ _ _ => .pure

theorem Reads.closeGap {newTipHeight : Nat} {walletTip : BlockId} :
    Reads st (closeGap B env fuel newTipHeight walletTip) := by
  refine Reads.bind .skipToBirthday fun tip t _ => ?_
  split
  · exact .pure
  · split
    · exact Reads.fullScanWallet.bind fun _ _ _ => .getTip
    · exact .pure

end Bip360Enforcer.Wallet
