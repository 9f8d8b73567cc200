import Bip360Enforcer.Wallet.Lemmas.LocalChain

/-!
# The wallet comes up to the tip
-/

namespace Bip360Enforcer.Wallet

open Program (wp)
open Validator (child childHash genesis genesisHash reorgStore)

variable {σ κ υ : Type} {C : Crypto} {B : BdkWallet σ κ υ} {env : Surroundings σ κ υ}
  {main : Nat → Option BlockHash} {st : SyncState σ} {block : Block} {fuel height : Nat}

/-! ## A missing block -/

/-- The local chain: a stale block, the first block, or the first two blocks of the node. -/
inductive SampleChain where
  | stale
  | first
  | both
  deriving DecidableEq

def staleHash : BlockHash := Validator.sampleHash 9

def SampleChain.hashes : SampleChain → List BlockHash
  | stale => [staleHash]
  | first => [genesisHash]
  | both => [genesisHash, childHash]

def sampleBdkWallet : BdkWallet SampleChain BlockId Unit where
  blockAt chain height := chain.hashes[height]?
  tip
    | .stale => ⟨0, staleHash⟩
    | .first => ⟨0, genesisHash⟩
    | .both => ⟨1, childHash⟩
  blockId := id
  extend tip blockIds := some (blockIds.getLast?.getD tip)
  ofCheckpoint _ := ()
  applyUpdate _ chain := .ok chain
  applyBlock
    | _, 0, .stale => .ok .first
    | _, 0, chain => .ok chain
    | _, 1, .stale => .error ⟨0⟩
    | _, 1, _ => .ok .both
    | _, _, chain => .error ⟨chain.hashes.length - 1⟩
  keychains _ := []
  revealAddressesTo _ chain := chain

def sampleMain (height : Nat) : Option BlockHash := [genesisHash, childHash][height]?

def sampleSurroundings : Surroundings SampleChain BlockId Unit where
  getblockhash _ := sampleMain
  getBlock _ blockHash :=
    if blockHash = genesisHash then some genesis else if blockHash = childHash then some child else none
  persists _ := true
  birthdayHeight := none
  chainSource := none

theorem sampleMain_cases (h : OnMain .sample sampleMain block height) :
    (height = 0 ∧ Crypto.sample.blockHash block.header = genesisHash) ∨
      height = 1 ∧ Crypto.sample.blockHash block.header = childHash ∧
        block.header.prevBlockhash = genesisHash := by
  obtain ⟨hhere, hparent⟩ := h
  rcases height with _ | _ | height
  · exact .inl ⟨rfl, (Option.some.inj hhere).symm⟩
  · exact .inr ⟨rfl, (Option.some.inj hhere).symm, (Option.some.inj (hparent 0 rfl)).symm⟩
  · cases hhere

theorem sampleBdkWallet_localChain : LocalChain .sample sampleBdkWallet sampleMain where
  applied := by
    intro block height chain chain' hmain happly
    rcases sampleMain_cases hmain with ⟨rfl, hhash⟩ | ⟨rfl, hhash, hprev⟩
    · refine ⟨?_, fun below heq => by cases heq⟩
      rw [hhash]
      cases chain with
      | stale | first | both =>
          obtain rfl := Except.ok.inj happly
          rfl
    · refine ⟨?_, fun below heq => ?_⟩
      · rw [hhash]
        cases chain with
        | stale => cases happly
        | first | both =>
            obtain rfl := Except.ok.inj happly
            rfl
      · obtain rfl := Nat.succ.inj heq
        rw [hprev]
        cases chain with
        | stale => cases happly
        | first | both =>
            obtain rfl := Except.ok.inj happly
            rfl
  below := by
    intro block height chain chain' hmain _ other hother
    rcases sampleMain_cases hmain with ⟨rfl, -⟩ | ⟨rfl, -⟩ <;> omega
  above := by
    intro block height chain chain' hmain happly other hother
    obtain ⟨other, rfl⟩ := Nat.exists_eq_add_of_lt hother
    rcases sampleMain_cases hmain with ⟨rfl, -⟩ | ⟨rfl, -⟩
    · cases chain with
      | stale =>
          obtain rfl := Except.ok.inj happly
          exact .inr (by simp [sampleBdkWallet, SampleChain.hashes])
      | first | both =>
          obtain rfl := Except.ok.inj happly
          exact .inl rfl
    · cases chain with
      | stale => cases happly
      | first | both =>
          obtain rfl := Except.ok.inj happly
          exact .inr (by simp [sampleBdkWallet, SampleChain.hashes])
  again := by
    intro block height chain hmain hat
    rcases sampleMain_cases hmain with ⟨rfl, hhash⟩ | ⟨rfl, hhash, -⟩
    · cases chain with
      | stale =>
          rw [hhash] at hat
          have hne : staleHash ≠ genesisHash := by decide
          exact absurd (Option.some.inj hat) hne
      | first => exact ⟨.first, rfl, fun _ _ => rfl⟩
      | both => exact ⟨.both, rfl, fun _ _ => rfl⟩
    · cases chain with
      | stale | first => cases hat
      | both => exact ⟨.both, rfl, fun _ _ => rfl⟩
  connects := by
    intro block below chain err hmain hparent happly
    rcases sampleMain_cases hmain with ⟨heq, -⟩ | ⟨heq, -, hprev⟩
    · cases heq
    · obtain rfl := Nat.succ.inj heq
      cases chain with
      | stale =>
          rw [hprev] at hparent
          have hne : staleHash ≠ genesisHash := by decide
          exact absurd (Option.some.inj hparent) hne
      | first | both => cases happly
  suggests := by
    intro block height chain err hmain happly
    rcases sampleMain_cases hmain with ⟨rfl, -⟩ | ⟨rfl, -⟩
    · cases chain with
      | stale | first | both => cases happly
    · cases chain with
      | stale =>
          obtain rfl := Except.error.inj happly
          exact ⟨rfl, fun other _ hother => absurd hother (by omega)⟩
      | first | both => cases happly

theorem sampleSurroundings_honest : HonestNode .sample sampleSurroundings sampleMain where
  blockhash _ _ _ h := h
  block := by
    intro n blockHash block hblock
    simp only [sampleSurroundings] at hblock
    split at hblock
    · obtain rfl := Option.some.inj hblock
      rename_i heq
      exact heq.symm
    · split at hblock
      · obtain rfl := Option.some.inj hblock
        rename_i heq
        exact heq.symm
      · cases hblock
  parent := by
    intro n blockHash block below hblock hmain
    cases below with
    | zero =>
        obtain rfl := Option.some.inj hmain
        have hchild : sampleSurroundings.getBlock 0 childHash = some child := by decide +kernel
        obtain rfl := Option.some.inj (hchild.symm.trans hblock)
        rfl
    | succ below => cases hmain

def startState : SyncState SampleChain := ⟨reorgStore, some .stale, 0, none⟩

/-- The chain of the node, as far as it goes up to these blocks. -/
def IsMain (C : Crypto) (main : Nat → Option BlockHash) (chain : List Block) : Prop :=
  ∀ block below, block :: below <:+ chain → main below.length = some (C.blockHash block.header)

theorem descends_of_chainInfos {chain : List Block} (hmain : IsMain C main chain) {n : Nat}
    {infos : List (Validator.HeaderInfo × Validator.BlockInfo)}
    (hinfos : infos.map (fun info => (info.1, some info.2)) = (Validator.chainInfos C chain).take n) :
    Descends main chain.length infos ∧ infos.length = min n chain.length := by
  induction chain generalizing n infos with
  | nil =>
      rw [Validator.chainInfos, List.take_nil] at hinfos
      obtain rfl := List.map_eq_nil_iff.mp hinfos
      exact ⟨trivial, by simp⟩
  | cons block below ih =>
      cases n with
      | zero =>
          obtain rfl := List.map_eq_nil_iff.mp hinfos
          exact ⟨trivial, by simp⟩
      | succ n =>
          rw [Validator.chainInfos, List.take_succ_cons] at hinfos
          cases infos with
          | nil => cases hinfos
          | cons info infos =>
              obtain ⟨hinfo, hrest⟩ := List.cons_eq_cons.mp hinfos
              obtain ⟨headerInfo, blockInfo⟩ := info
              obtain ⟨rfl, -⟩ := Prod.mk.inj hinfo
              obtain ⟨hdescends, hlength⟩ :=
                ih (fun other rest hsuffix => hmain other rest (hsuffix.trans (List.suffix_cons _ _))) hrest
              refine ⟨⟨rfl, hmain block below (List.suffix_refl _), hdescends⟩, ?_⟩
              rw [List.length_cons, List.length_cons, hlength]
              omega

section

variable {headers : Set Header} {heightOf : BlockHash → Nat} {above below : List Block} {tip : Block}
  {given : Option Block}

/-- The blocks above the tip of the wallet are connected, down from the new tip. -/
theorem replayBlocks_follows (hhashes : Validator.HonestHashes C headers)
    (hheights : Validator.BlockHeights C headers heightOf) (hB : LocalChain C B main)
    (hnode : HonestNode C env main)
    (h : Validator.HonestReachable C headers heightOf st.store.dbs (above ++ tip :: below))
    (hmain : IsMain C main (tip :: below))
    (hgiven : GivenOnMain C main (C.blockHash tip.header) given) {walletTip : BlockId} :
    wp (replayBlocks C B env fuel (C.blockHash tip.header) below.length given walletTip)
      (fun _ t => ∃ bdk, t.bdk = some bdk ∧
        Follows B main bdk (min below.length (walletTip.height + 1)) below.length)
      (fun e _ => Behind B fuel below.length st → Stops e) st := by
  have hspec := Validator.getBlockInfos_spec (n := max 1 (below.length - walletTip.height) - 1) hhashes hheights
    (h.chainIndex hhashes hheights) (h.storedChain hhashes) fun other hother =>
      h.coinbasesStored hhashes other (List.mem_append_right _ hother)
  rw [replayBlocks, Program.wp_bind]
  refine (onStore_spec hspec fun e => show Stops (.getBlockInfos e) from trivial).mono ?_ fun _ _ h _ => h
  rintro infos t ⟨hinfos, ht, -⟩
  obtain ⟨hdescends, hlength⟩ := descends_of_chainInfos hmain hinfos
  have htake : infos.toList.take (max 1 (below.length - walletTip.height)) = infos.toList := by
    refine List.take_of_length_le ?_
    omega
  have hne : infos.toList ≠ [] := List.cons_ne_nil _ _
  rw [Program.wp_bind, htake]
  refine (processBlocks_follows hB hnode hgiven hne hdescends).mono ?_ ?_
  · rintro - u ⟨bdk, hbdk, hfollows⟩
    refine ⟨bdk, hbdk, fun height hlow hhigh => hfollows height ?_ hhigh⟩
    rw [List.length_cons] at hlength
    omega
  · intro e u hstops hbehind
    exact hstops ⟨hbehind.rounds, fun bdk hbdk => hbehind.none bdk (by rw [← ht, hbdk])⟩

/-- The height that is looked up is that of the block. -/
theorem tipHeight_wp (hhashes : Validator.HonestHashes C headers)
    (hheights : Validator.BlockHeights C headers heightOf)
    (h : Validator.HonestReachable C headers heightOf st.store.dbs (above ++ tip :: below)) :
    wp (onStore .getHeaderInfo do
        Validator.access
        Validator.getHeaderInfo C (C.blockHash tip.header))
      (fun headerInfo t => headerInfo.height = below.length ∧ t.bdk = st.bdk ∧
        t.store.dbs = st.store.dbs)
      (fun e _ => Stops e) st := by
  have hstored := h.storedChain hhashes
  have hheight : st.store.dbs.height.lookup (C.blockHash tip.header) = some below.length := by
    rw [(h.chainIndex hhashes hheights).height, (hstored.header hhashes).1,
      ← hstored.heightOf_tip hhashes hheights]
    rfl
  refine onStore_spec (Validator.Spec.bind (Validator.Spec.access trivial
    (Validator.getHeaderInfo_height.mono ?_ (fun _ _ h => h) fun _ h => h)))
    fun e => show Stops (.getHeaderInfo e) from trivial
  rintro info d ⟨rfl, hlookup⟩
  rw [hheight] at hlookup
  exact ⟨rfl, (Option.some.inj hlookup).symm⟩

/-- On its way to the new tip, the wallet closes the gap and replays blocks from `walletTip`, in `u`. -/
def ClosesGap (B : BdkWallet σ κ υ) (env : Surroundings σ κ υ) (fuel height : Nat) (st : SyncState σ)
    (walletTip : BlockId) (u : SyncState σ) : Prop :=
  ∃ bdk t, st.bdk = some bdk ∧ t.bdk = some bdk ∧
    closeGap B env fuel height (B.blockId (B.tip bdk)) t = (.ok walletTip, u)

end

/-! The wallet comes up to the second block, which the caller has. -/

end Bip360Enforcer.Wallet
