import Bip360Enforcer.Library.Except
import Bip360Enforcer.Wallet.Send

/-!
# What a sent transaction pays, and what was requested
-/

namespace Bip360Enforcer.Wallet

open Program (wp)

variable {A W P : Type} {bdk : Bdk A W P} {C : Crypto} {node : Node}
  {request : SendTransactionRequest} {destinations : AList fun _ : A => Amount}
  {params : CreateTransactionParams A} {wallet : W} {builder : TxBuilder} {st : SendState W}

/-! ## Payments -/

/-- What the outputs pay to a script. -/
def paidTo (outputs : List TxOut) (script : Script) : Nat :=
  (outputs.map fun output => if output.scriptPubkey = script then output.value.toNat else 0).sum

/-- The script that an address string denotes. -/
def denotes (bdk : Bdk A W P) (text : String) : Option Script :=
  (parseCheckedAddress bdk text).toOption.map bdk.scriptPubkey

/-- The amounts requested for the address strings that denote a script. -/
def requestedFor (bdk : Bdk A W P) (request : SendTransactionRequest) (script : Script) : Nat :=
  (request.destinations.entries.map fun entry =>
    if denotes bdk entry.1 = some script then entry.2.toNat else 0).sum

/-- The output of the message. -/
def opReturnOutputs (bdk : Bdk A W P) (params : CreateTransactionParams A) : List TxOut :=
  params.opReturnMessage.toList.filterMap fun message => (createOpReturnOutput bdk message).toOption

/-- The outputs to the destinations. -/
def destinationOutputs (bdk : Bdk A W P) (destinations : AList fun _ : A => Amount) : List TxOut :=
  destinations.entries.map fun entry => ⟨entry.2, bdk.scriptPubkey entry.1⟩

/-- Beside the message and the change, the outputs pay to each script what was requested for it, and
all that was requested. -/
def PaysRequested (bdk : Bdk A W P) (request : SendTransactionRequest) (params : CreateTransactionParams A)
    (change : Option TxOut) (tx : Transaction) : Prop :=
  ∃ paid, tx.output.Perm (opReturnOutputs bdk params ++ change.toList ++ paid) ∧
    (∀ script, paidTo paid script = requestedFor bdk request script) ∧
    (paid.map fun output => output.value.toNat).sum =
      (request.destinations.entries.map fun entry => entry.2.toNat).sum

/-- No two address strings of the request denote one address. -/
def DistinctAddresses (bdk : Bdk A W P) (request : SendTransactionRequest) : Prop :=
  ∀ s ∈ request.destinations, ∀ t ∈ request.destinations, ∀ address,
    parseCheckedAddress bdk s = .ok address → parseCheckedAddress bdk t = .ok address → s = t

/-- What is documented of the libraries: the builder adds the change to its recipients, in any order,
signing leaves the outputs alone, and no output to an address may be of amount zero. -/
structure Bdk.Documented (bdk : Bdk A W P) : Prop where
  finish : ∀ wallet builder psbt, (bdk.finish wallet builder).1 = .ok psbt →
    (bdk.outputs psbt).Perm (builder.recipients ++ (bdk.change wallet builder).toList)
  sign : ∀ wallet psbt signed psbt', bdk.sign wallet psbt = .ok (signed, psbt') →
    bdk.outputs psbt' = bdk.outputs psbt
  extractTx : ∀ psbt tx, bdk.extractTx psbt = .ok tx → tx.output = bdk.outputs psbt
  zero_dust : ∀ address, bdk.isDust 0 (bdk.scriptPubkey address) = true

/-! ## The builder -/

theorem recipients_addDestinations (destinations : AList fun _ : A => Amount) (builder : TxBuilder) :
    (addDestinations bdk destinations builder).recipients =
      builder.recipients ++ destinationOutputs bdk destinations := by
  unfold addDestinations destinationOutputs
  generalize destinations.entries = entries
  induction entries generalizing builder with
  | nil => simp
  | cons entry entries ih =>
      rw [List.foldl_cons, ih, List.map_cons, TxBuilder.addRecipient]
      simp

theorem recipients_addOpReturn {message : Option Bytes} {builder' : TxBuilder}
    (h : addOpReturn bdk message builder = .ok builder') :
    builder'.recipients = builder.recipients ++
      message.toList.filterMap fun message => (createOpReturnOutput bdk message).toOption := by
  cases message with
  | none =>
      cases h
      simp
  | some message =>
      obtain ⟨output, houtput, heq⟩ := Except.bind_eq_ok_iff.mp h
      cases heq
      simp [houtput, Except.toOption, TxBuilder.addRecipient]

theorem recipients_drain (drainWalletTo : Option A) (builder : TxBuilder) :
    (drain bdk drainWalletTo builder).recipients = builder.recipients := by
  cases drainWalletTo <;> rfl

theorem recipients_addRequiredUtxos {requiredUtxos : List OutPoint} {builder' : TxBuilder}
    (h : addRequiredUtxos bdk wallet requiredUtxos builder = .ok builder') :
    builder'.recipients = builder.recipients := by
  unfold addRequiredUtxos at h
  split at h
  · cases h
    rfl
  · split at h
    · cases h
    · cases h
      rfl

/-- The recipients are the message and one output for each address. -/
theorem recipients_sendBuilder (h : sendBuilder bdk wallet destinations params = .ok builder) :
    builder.recipients = opReturnOutputs bdk params ++ destinationOutputs bdk destinations := by
  obtain ⟨messaged, hmessaged, h⟩ := Except.bind_eq_ok_iff.mp h
  obtain ⟨required, hrequired, h⟩ := Except.bind_eq_ok_iff.mp h
  cases h
  have hmessage := recipients_addOpReturn hmessaged
  have hutxos := recipients_addRequiredUtxos hrequired
  rw [recipients_drain, recipients_addDestinations, hmessage] at hutxos
  exact hutxos

/-! ## Runs -/

theorem wp_unlockedWallet {ε : Type} {locked : ε} :
    wp (unlockedWallet locked) (fun wallet t => st.bitcoinWallet = some wallet ∧ t = st)
      (fun _ _ => True) st := by
  rw [unlockedWallet, Program.wp_bind, Program.wp_get]
  cases hwallet : st.bitcoinWallet with
  | none => trivial
  | some wallet => exact ⟨rfl, rfl⟩

theorem wp_createSendPsbt :
    wp (createSendPsbt bdk destinations params)
      (fun psbt t => t.broadcast = st.broadcast ∧ ∃ wallet builder, st.bitcoinWallet = some wallet ∧
        sendBuilder bdk wallet destinations params = .ok builder ∧ (bdk.finish wallet builder).1 = .ok psbt)
      (fun _ _ => True) st := by
  rw [createSendPsbt, Program.wp_bind]
  refine wp_unlockedWallet.mono ?_ fun _ _ _ => trivial
  rintro wallet _ ⟨hwallet, rfl⟩
  rw [Program.wp_bind, Program.wp_ofExcept]
  refine ⟨fun builder hbuilder => ?_, fun _ _ => trivial⟩
  rw [Program.wp_bind, setWallet, Program.wp_modify, Program.wp_ofExcept]
  refine ⟨fun psbt hpsbt => ?_, fun _ _ => trivial⟩
  exact ⟨rfl, wallet, builder, hwallet, hbuilder, Except.mapError_eq_ok_iff.mp hpsbt⟩

theorem wp_signTransaction (hbdk : bdk.Documented) (psbt : P) :
    wp (signTransaction bdk psbt)
      (fun tx t => t.broadcast = st.broadcast ∧ tx.output = bdk.outputs psbt) (fun _ _ => True) st := by
  rw [signTransaction, Program.wp_bind]
  refine wp_unlockedWallet.mono ?_ fun _ _ _ => trivial
  rintro wallet _ ⟨-, rfl⟩
  rw [Program.wp_bind, Program.wp_ofExcept]
  refine ⟨fun result hsign => ?_, fun _ _ => trivial⟩
  have houtputs := hbdk.sign wallet psbt result.1 result.2 (Except.mapError_eq_ok_iff.mp hsign)
  rw [Program.wp_ite]
  refine ⟨fun _ => trivial, fun _ => ?_⟩
  rw [Program.wp_ofExcept]
  refine ⟨fun tx htx => ?_, fun _ _ => trivial⟩
  exact ⟨rfl, (hbdk.extractTx _ tx (Except.mapError_eq_ok_iff.mp htx)).trans houtputs⟩

theorem wp_broadcastTransaction (tx : Transaction) :
    wp (broadcastTransaction node tx)
      (fun result t => result.isSome → t.broadcast = st.broadcast ++ [tx]) (fun _ _ => True) st := by
  rw [broadcastTransaction, Program.wp_bind, Program.wp_get]
  cases node st.broadcast tx with
  | ok txid => exact fun _ => rfl
  | error err =>
      cases err with
      | other message => trivial
      | call code message =>
          simp only [Program.wp_ite]
          refine ⟨fun _ hsome => ?_, fun _ => trivial⟩
          cases hsome

theorem wp_applyUnconfirmed (tx : Transaction) :
    wp (applyUnconfirmed bdk tx) (fun _ t => t.broadcast = st.broadcast) (fun _ _ => True) st := by
  rw [applyUnconfirmed, Program.wp_bind]
  refine wp_unlockedWallet.mono ?_ fun _ _ _ => trivial
  rintro wallet _ ⟨-, rfl⟩
  simp only [setWallet, Program.wp_bind, Program.wp_modify, Program.wp_ofExcept]
  exact ⟨fun _ _ => trivial, fun _ _ => trivial⟩

/-- The transaction that a call sends has the recipients and the change as its outputs. -/
theorem wp_sendWalletTransaction (hbdk : bdk.Documented) :
    wp (sendWalletTransaction bdk C node destinations params)
      (fun txid t => ∃ wallet builder tx, st.bitcoinWallet = some wallet ∧
        sendBuilder bdk wallet destinations params = .ok builder ∧
        tx.output.Perm (builder.recipients ++ (bdk.change wallet builder).toList) ∧
        t.broadcast = st.broadcast ++ [tx] ∧ txid = C.computeTxid tx)
      (fun _ _ => True) st := by
  rw [sendWalletTransaction, Program.wp_bind, Program.wp_mapError]
  refine wp_createSendPsbt.mono ?_ fun _ _ _ => trivial
  rintro psbt t ⟨hpsbt, wallet, builder, hwallet, hbuilder, hfinish⟩
  rw [Program.wp_bind, Program.wp_mapError]
  refine (wp_signTransaction hbdk psbt).mono ?_ fun _ _ _ => trivial
  rintro tx t' ⟨hsigned, houtputs⟩
  rw [Program.wp_bind, Program.wp_mapError]
  refine (wp_broadcastTransaction tx).mono ?_ fun _ _ _ => trivial
  intro result t'' hbroadcast
  cases result with
  | none => trivial
  | some _ =>
      rw [Program.wp_bind]
      refine (wp_applyUnconfirmed tx).mono ?_ fun _ _ _ => trivial
      intro _ t''' happlied
      refine ⟨wallet, builder, tx, hwallet, hbuilder, ?_, ?_, rfl⟩
      · rw [houtputs]
        exact hbdk.finish wallet builder psbt hfinish
      · rw [happlied, hbroadcast rfl, hsigned, hpsbt]

/-! ## Validation -/

theorem validateDestination_eq_ok {text : String} {amount : UInt64} {pair : A × Amount}
    (h : validateDestination bdk text amount = .ok pair) :
    parseCheckedAddress bdk text = .ok pair.1 ∧ pair.2 = amount ∧
      bdk.isDust amount (bdk.scriptPubkey pair.1) = false := by
  obtain ⟨address, haddress, h⟩ := Except.bind_eq_ok_iff.mp h
  split at h
  · cases h
  · rename_i hdust
    cases h
    exact ⟨haddress, rfl, Bool.eq_false_iff.mpr hdust⟩

/-- The destinations are collected from the pairs that the strings were parsed to. -/
theorem validateRequest_eq_ok [DecidableEq A]
    (h : validateRequest bdk request = .ok (destinations, params)) :
    ∃ pairs, request.destinations.entries.mapM (fun entry => validateDestination bdk entry.1 entry.2) =
      .ok pairs ∧ destinations = AList.collect pairs := by
  obtain ⟨utxos, -, h⟩ := Except.bind_eq_ok_iff.mp h
  obtain ⟨validated, hvalidated, h⟩ := Except.bind_eq_ok_iff.mp h
  obtain ⟨pairs, hpairs, hcollect⟩ := Except.bind_eq_ok_iff.mp hvalidated
  cases hcollect
  refine ⟨pairs, hpairs, ?_⟩
  split at h
  · cases h
  · obtain ⟨drainWalletTo, -, h⟩ := Except.bind_eq_ok_iff.mp h
    split at h
    · cases h
    · obtain ⟨feePolicy, -, h⟩ := Except.bind_eq_ok_iff.mp h
      obtain ⟨message, -, h⟩ := Except.bind_eq_ok_iff.mp h
      cases h
      rfl

section

variable {pairs : List (A × Amount)}
  (hpairs : request.destinations.entries.mapM (fun entry => validateDestination bdk entry.1 entry.2) =
    .ok pairs)

include hpairs

/-- What a destination weighs for a script. -/
theorem requestedFor_eq (script : Script) :
    requestedFor bdk request script =
      (pairs.map fun pair => if bdk.scriptPubkey pair.1 = script then pair.2.toNat else 0).sum := by
  rw [requestedFor]
  apply congrArg
  refine Except.map_eq_of_mapM hpairs fun entry pair hpair => ?_
  obtain ⟨hparse, hamount, -⟩ := validateDestination_eq_ok hpair
  simp [denotes, hparse, hamount, Except.toOption]

theorem requested_total_eq :
    (request.destinations.entries.map fun entry => entry.2.toNat).sum =
      (pairs.map fun pair => pair.2.toNat).sum := by
  apply congrArg
  refine Except.map_eq_of_mapM hpairs fun entry pair hpair => ?_
  rw [(validateDestination_eq_ok hpair).2.1]

theorem amount_pos (hbdk : bdk.Documented) {pair : A × Amount} (h : pair ∈ pairs) : 0 < pair.2.toNat := by
  obtain ⟨entry, -, hpair⟩ := Except.exists_of_mem_mapM hpairs h
  obtain ⟨-, hamount, hdust⟩ := validateDestination_eq_ok hpair
  apply Nat.pos_of_ne_zero
  intro hzero
  have hpair0 : pair.2 = 0 := UInt64.toNat_inj.mp hzero
  rw [← hamount, hpair0, hbdk.zero_dust] at hdust
  cases hdust

theorem distinctAddresses_iff : DistinctAddresses bdk request ↔ (pairs.map Prod.fst).Nodup := by
  have hparse : request.destinations.keys.map (parseCheckedAddress bdk) =
      (pairs.map Prod.fst).map Except.ok := by
    rw [AList.keys, List.keys, List.map_map, List.map_map]
    exact Except.map_eq_of_mapM hpairs fun entry pair hpair => (validateDestination_eq_ok hpair).1
  have hok : ∀ s ∈ request.destinations, ∃ address, parseCheckedAddress bdk s = .ok address := by
    intro s hs
    have hmem := List.mem_map_of_mem (f := parseCheckedAddress bdk) (AList.mem_keys.mp hs)
    rw [hparse] at hmem
    obtain ⟨address, -, haddress⟩ := List.mem_map.mp hmem
    exact ⟨address, haddress.symm⟩
  rw [← List.nodup_map_iff (f := Except.ok (ε := ConnectError)) (fun _ _ h => Except.ok.inj h), ← hparse,
    List.nodup_map_iff_inj_on request.destinations.keys_nodup]
  constructor
  · intro h s hs t ht heq
    obtain ⟨address, haddress⟩ := hok s hs
    exact h s hs t ht address haddress (heq ▸ haddress)
  · intro h s hs t ht address hs' ht'
    exact h s hs t ht (hs'.trans ht'.symm)

end

/-! ## Payments and requests -/

theorem paidTo_destinationOutputs (destinations : AList fun _ : A => Amount) (script : Script) :
    paidTo (destinationOutputs bdk destinations) script =
      destinations.total fun address amount =>
        if bdk.scriptPubkey address = script then amount.toNat else 0 := by
  rw [paidTo, destinationOutputs, List.map_map, AList.total]
  rfl

theorem value_destinationOutputs (destinations : AList fun _ : A => Amount) :
    ((destinationOutputs bdk destinations).map fun output => output.value.toNat).sum =
      destinations.total fun _ amount => amount.toNat := by
  rw [destinationOutputs, List.map_map, AList.total]
  rfl

theorem paidTo_perm {outputs outputs' : List TxOut} (h : outputs.Perm outputs') (script : Script) :
    paidTo outputs script = paidTo outputs' script := (h.map _).sum_eq

section

variable [DecidableEq A] {pairs : List (A × Amount)}

/-- Two strings for one address: what is paid to its script is less than what was requested. -/
theorem exists_unpaid (hbdk : bdk.Documented)
    (hpairs : request.destinations.entries.mapM (fun entry => validateDestination bdk entry.1 entry.2) =
      .ok pairs) (hdistinct : ¬ DistinctAddresses bdk request) :
    ∃ script, paidTo (destinationOutputs bdk (AList.collect pairs)) script <
      requestedFor bdk request script := by
  rw [distinctAddresses_iff hpairs, List.nodup_iff_count_le_one, not_forall] at hdistinct
  obtain ⟨address, hcount⟩ := hdistinct
  refine ⟨bdk.scriptPubkey address, ?_⟩
  rw [requestedFor_eq hpairs, paidTo_destinationOutputs]
  apply AList.total_collect_lt (k := address)
  · intro amount hmem
    rw [if_pos rfl]
    exact amount_pos hpairs hbdk hmem
  · omega

theorem paysRequested_iff (hbdk : bdk.Documented) {tx : Transaction} {change : Option TxOut}
    (hrequest : validateRequest bdk request = .ok (destinations, params))
    (htx : tx.output.Perm
      (opReturnOutputs bdk params ++ destinationOutputs bdk destinations ++ change.toList)) :
    PaysRequested bdk request params change tx ↔ DistinctAddresses bdk request := by
  obtain ⟨pairs, hpairs, rfl⟩ := validateRequest_eq_ok hrequest
  have hswap : tx.output.Perm
      (opReturnOutputs bdk params ++ change.toList ++ destinationOutputs bdk (AList.collect pairs)) := by
    refine htx.trans ?_
    rw [List.append_assoc, List.append_assoc]
    exact List.perm_append_comm.append_left _
  constructor
  · rintro ⟨paid, hperm, hpaid, -⟩
    by_contra hdistinct
    obtain ⟨script, hless⟩ := exists_unpaid hbdk hpairs hdistinct
    have hsame := (List.perm_append_left_iff _).mp (hperm.symm.trans hswap)
    rw [← hpaid script, paidTo_perm hsame] at hless
    exact Nat.lt_irrefl _ hless
  · intro hdistinct
    have hnodup := (distinctAddresses_iff hpairs).mp hdistinct
    refine ⟨destinationOutputs bdk (AList.collect pairs), hswap, fun script => ?_, ?_⟩
    · rw [paidTo_destinationOutputs, AList.total_collect_eq _ hnodup, requestedFor_eq hpairs]
    · rw [value_destinationOutputs, AList.total_collect_eq _ hnodup, requested_total_eq hpairs]

/-- A call that succeeds has sent one transaction, built for the request, which pays what was requested
if and only if no two of the request's address strings denote one address. -/
theorem sendTransaction_pays_iff (hbdk : bdk.Documented) {st' : SendState W} {txid : Txid}
    (h : sendTransaction bdk C node request st = (.ok txid, st')) :
    ∃ wallet destinations params builder tx, st.bitcoinWallet = some wallet ∧
      validateRequest bdk request = .ok (destinations, params) ∧
      sendBuilder bdk wallet destinations params = .ok builder ∧
      st'.broadcast = st.broadcast ++ [tx] ∧ txid = C.computeTxid tx ∧
      (PaysRequested bdk request params (bdk.change wallet builder) tx ↔
        DistinctAddresses bdk request) := by
  have hrun : wp (sendTransaction bdk C node request)
      (fun txid t => ∃ wallet destinations params builder tx, st.bitcoinWallet = some wallet ∧
        validateRequest bdk request = .ok (destinations, params) ∧
        sendBuilder bdk wallet destinations params = .ok builder ∧
        t.broadcast = st.broadcast ++ [tx] ∧ txid = C.computeTxid tx ∧
        tx.output.Perm (builder.recipients ++ (bdk.change wallet builder).toList))
      (fun _ _ => True) st := by
    rw [sendTransaction, Program.wp_bind, Program.wp_ofExcept]
    refine ⟨fun result hrequest => ?_, fun _ _ => trivial⟩
    rw [Program.wp_mapError]
    refine (wp_sendWalletTransaction hbdk).mono ?_ fun _ _ _ => trivial
    rintro txid t ⟨wallet, builder, tx, hwallet, hbuilder, houtputs, hbroadcast, htxid⟩
    exact ⟨wallet, result.1, result.2, builder, tx, hwallet, hrequest, hbuilder, hbroadcast, htxid, houtputs⟩
  obtain ⟨wallet, destinations, params, builder, tx, hwallet, hrequest, hbuilder, hbroadcast, htxid,
    houtputs⟩ := hrun.ok h
  refine ⟨wallet, destinations, params, builder, tx, hwallet, hrequest, hbuilder, hbroadcast, htxid, ?_⟩
  apply paysRequested_iff hbdk hrequest
  rw [recipients_sendBuilder hbuilder] at houtputs
  exact houtputs

end

/-! ## Two strings for one address -/

def lowerCase : String := "bc1qw508d6qejxtdg4y5r3zarvary0c5xw7kv8f3t4"

def upperCase : String := "BC1QW508D6QEJXTDG4Y5R3ZARVARY0C5XW7KV8F3T4"

/-- The script of both. -/
def keyHashScript : Script :=
  [0x00, 0x14, 0x75, 0x1e, 0x76, 0xe8, 0x19, 0x91, 0x96, 0xd4, 0x54, 0x94, 0x1c, 0x45, 0xd1, 0xb3, 0xa3,
    0x23, 0xf1, 0x43, 0x3b, 0xd6]

def otherAddress : String := "bc1qrp33g0q5c5txsp9arysrx4k6zdkfs4nce4xj0gdcccefvpysxf3qccfmv3"

def scriptHashScript : Script :=
  [0x00, 0x20, 0x18, 0x63, 0x14, 0x3c, 0x14, 0xc5, 0x16, 0x68, 0x04, 0xbd, 0x19, 0x20, 0x33, 0x56, 0xda,
    0x13, 0x6c, 0x98, 0x56, 0x78, 0xcd, 0x4d, 0x27, 0xa1, 0xb8, 0xc6, 0x32, 0x96, 0x04, 0x90, 0x32, 0x62]

/-- What is left of the one coin of a wallet, whose value is `wallet`, after a fee of 200 satoshi. -/
def sampleChange (wallet : Amount) (builder : TxBuilder) : Option TxOut :=
  let sent := builder.recipients.foldl (fun sent output => sent + output.value) 0
  some ⟨wallet - sent - 200, 0x51 :: 0x20 :: List.replicate 32 7⟩

/-- Libraries that know three address strings. -/
def sampleBdk : Bdk Script Amount (List TxOut) where
  network := "bitcoin"
  decodeTxid _ := .error "Invalid string length"
  decodeHex _ := .error "Invalid string length"
  addressFromStr text :=
    if text = lowerCase ∨ text = upperCase then .ok keyHashScript
    else if text = otherAddress then .ok scriptHashScript
    else .error "unknown address"
  isValidForNetwork _ := true
  scriptPubkey script := script
  displayAddress script := if script = keyHashScript then lowerCase else otherAddress
  displayAmount amount := toString amount ++ " SAT"
  displayTxid _ := ""
  isDust amount script := amount < if script.length = 22 then 294 else 330
  feeRateFromSatPerVb rate := some (rate * 250)
  newOpReturn message := .ok (0x6a :: UInt8.ofNat message.length :: message)
  hasUtxo _ _ := true
  finish wallet builder := (.ok (builder.recipients ++ (sampleChange wallet builder).toList), wallet)
  outputs psbt := psbt
  change := sampleChange
  sign _ psbt := .ok (true, psbt)
  extractTx psbt := .ok ⟨2, 0, [⟨⟨List.replicate 32 1, 0⟩, [], 0xfffffffd, [[1], [2]]⟩], psbt⟩
  applyUnconfirmedTx wallet _ := wallet
  persist wallet := .ok wallet

theorem sampleBdk_isDust (script : Script) : sampleBdk.isDust 0 script = true := by
  rcases em (script.length = 22) with h | h
  · simp [sampleBdk, h]
  · simp [sampleBdk, h]

theorem sampleBdk_documented : sampleBdk.Documented where
  finish wallet builder psbt h := by
    cases h
    exact List.Perm.refl _
  sign wallet psbt signed psbt' h := by
    cases h
    rfl
  extractTx psbt tx h := by
    cases h
    rfl
  zero_dust := sampleBdk_isDust

def sampleNode : Node := fun _ tx => .ok (Crypto.sample.computeTxid tx)

def sampleRequest (destinations : AList fun _ : String => UInt64) : SendTransactionRequest :=
  ⟨destinations, none, none, [], none⟩

/-- A wallet with one coin. -/
def sampleSend (destinations : AList fun _ : String => UInt64) :
    Except ConnectError Txid × SendState Amount :=
  sendTransaction sampleBdk .sample sampleNode (sampleRequest destinations) ⟨some 100000, []⟩

def collidingDestinations : AList fun _ : String => UInt64 :=
  (AList.singleton upperCase 2000).insert lowerCase 1000

theorem collidingDestinations_not_distinct :
    ¬ DistinctAddresses sampleBdk (sampleRequest collidingDestinations) := by
  intro h
  have hsame := h lowerCase (by decide) upperCase (by decide) keyHashScript rfl rfl
  exact absurd hsame (by decide)

/-- Of the two amounts requested, 1000 and 2000 satoshi, the call that succeeds pays one. -/
theorem collision_unpaid :
    ∃ txid tx destinations params builder,
      sampleSend collidingDestinations = (.ok txid, ⟨some 100000, [tx]⟩) ∧
      validateRequest sampleBdk (sampleRequest collidingDestinations) = .ok (destinations, params) ∧
      sendBuilder sampleBdk 100000 destinations params = .ok builder ∧
      paidTo tx.output keyHashScript = 2000 ∧
      requestedFor sampleBdk (sampleRequest collidingDestinations) keyHashScript = 3000 ∧
      ¬ PaysRequested sampleBdk (sampleRequest collidingDestinations) params
        (sampleBdk.change 100000 builder) tx := by
  have hrequest : validateRequest sampleBdk (sampleRequest collidingDestinations) =
      .ok (AList.collect [(keyHashScript, 1000), (keyHashScript, 2000)], ⟨none, none, [], none⟩) := rfl
  refine ⟨_, _, _, _, _, rfl, hrequest, rfl, by decide, by decide, ?_⟩
  exact mt (paysRequested_iff sampleBdk_documented hrequest (List.Perm.refl _)).mp
    collidingDestinations_not_distinct

def distinctDestinations : AList fun _ : String => UInt64 :=
  (AList.singleton otherAddress 2000).insert lowerCase 1000

theorem distinctDestinations_distinct :
    DistinctAddresses sampleBdk (sampleRequest distinctDestinations) := by
  have hmem : ∀ s ∈ (sampleRequest distinctDestinations).destinations,
      s = lowerCase ∨ s = otherAddress := by
    intro s hs
    exact ((AList.mem_insert _).mp hs).imp_right fun hother => List.mem_singleton.mp (AList.mem_keys.mp hother)
  have hlower : parseCheckedAddress sampleBdk lowerCase = .ok keyHashScript := rfl
  have hother : parseCheckedAddress sampleBdk otherAddress = .ok scriptHashScript := rfl
  have hne : keyHashScript ≠ scriptHashScript := by decide
  intro s hs t ht address hs' ht'
  rcases hmem s hs with rfl | rfl <;> rcases hmem t ht with rfl | rfl
  · rfl
  · rw [hlower] at hs'
    rw [hother] at ht'
    exact absurd ((Except.ok.inj hs').trans (Except.ok.inj ht').symm) hne
  · rw [hother] at hs'
    rw [hlower] at ht'
    exact absurd ((Except.ok.inj ht').trans (Except.ok.inj hs').symm) hne
  · rfl

theorem distinctDestinations_paid :
    ∃ params change tx, (sampleSend distinctDestinations).2.broadcast = [tx] ∧
      PaysRequested sampleBdk (sampleRequest distinctDestinations) params change tx := by
  have hsend : ∃ txid t, sampleSend distinctDestinations = (.ok txid, t) := ⟨_, _, rfl⟩
  obtain ⟨txid, t, hsend⟩ := hsend
  obtain ⟨wallet, destinations, params, builder, tx, -, -, -, hbroadcast, -, hpays⟩ :=
    sendTransaction_pays_iff sampleBdk_documented hsend
  rw [hsend]
  exact ⟨params, _, tx, hbroadcast, hpays.mpr distinctDestinations_distinct⟩

end Bip360Enforcer.Wallet
