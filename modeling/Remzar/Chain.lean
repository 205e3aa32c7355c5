import Mathlib
import Remzar.Supply
import Remzar.BlockSpec

/-! Chains accepted block by block from an empty tree, by `apply_block` or by the sync
path, and what holds of every such chain. -/
namespace Remzar
open Std Fallible Effects Checked Ledger AccountGuard

/-- A block and its batch accepted on top of a chain state. The sync path validates the
block, adds it as the next one, and applies the batch when it arrives; the rest of the
node may write to the database at any time. -/
inductive Accepts [Blake3] (s : ChainState) (block : Block) (batch : TransactionBatch) :
    ChainState → Prop
  | applied (environment : RockDB → RockDB) (s' : ChainState)
    (hrun : Call.result ⟨environment, block⟩ s = .ok () s')
    (hnew : NewlyApplied ⟨environment, block⟩ s batch) : Accepts s block batch s'
  | synced (db : RockDB) (t t' : AccountModelTree) (hvalid : block.validate = .ok ())
    (hindex : block.metadata.index = s.tree.inner.expectedNextHeight)
    (hadd : s.tree.addBlock block = (.ok (), t)) (hbatch : t.applyBatch batch = .ok t') :
    Accepts s block batch ⟨db, t'⟩

/-- Chains from the empty tree, with the blocks and batches accepted so far. -/
inductive ChainRun [Blake3] : List (Block × TransactionBatch) → ChainState → Prop
  | start (db : RockDB) : ChainRun [] ⟨db, AccountModelTree.withManager⟩
  | step {log : List (Block × TransactionBatch)} {s s' : ChainState} {block : Block}
    {batch : TransactionBatch} (hrun : ChainRun log s) (hacc : Accepts s block batch s') :
    ChainRun (log ++ [(block, batch)]) s'

/-- What one accepted block does to the tree. -/
structure Extends [Blake3] (s : ChainState) (block : Block) (batch : TransactionBatch)
    (s' : ChainState) : Prop where
  height : block.metadata.index = s.tree.inner.expectedNextHeight
  bounded : block.metadata.index ≤ maxMetadataIndexHard
  structural : validateBatchStructure batch = .ok ()
  issued : s'.tree.inner.totalIssuedMicro.toNat =
    s.tree.inner.totalIssuedMicro.toNat + batch.rewardAmount
  tip : s'.tree.inner.hasTip ∧ s'.tree.inner.tipHeight = block.metadata.index
  queue : s'.tree.pendingBlocks = ∅

theorem validate_index [Blake3] {block : Block} (h : block.validate = .ok ()) :
    block.metadata.index ≤ maxMetadataIndexHard := by
  simp only [Block.validate, BlockMetadata.validateStructural, bind_eq_ok_iff,
    rejectIf_eq_ok_iff] at h
  obtain ⟨-, ⟨-, hbound, -⟩, -⟩ := h
  exact UInt64.not_lt.mp (fun hlt => hbound (.inl hlt))

theorem validateNextBlockLink_height {s : InnerTree} {block : Block}
    (h : validateNextBlockLink s block = .ok ()) : block.metadata.index = s.expectedNextHeight := by
  simp only [validateNextBlockLink, bind_eq_ok_iff, rejectIf_eq_ok_iff] at h
  obtain ⟨-, hheight, -⟩ := h
  exact not_not.mp hheight

theorem Moves.tip {s s' : InnerTree} {w : ℕ} (h : Moves s s' w) :
    s'.hasTip = s.hasTip ∧ s'.tipHeight = s.tipHeight := by
  rw [h.rest]
  exact ⟨rfl, rfl⟩

theorem Accepts.extends [Blake3] {s s' : ChainState} {block : Block} {batch : TransactionBatch}
    (h : Accepts s block batch s') (hqueue : s.tree.pendingBlocks = ∅) :
    Extends s block batch s' := by
  cases h with
  | applied environment _ hrun hnew =>
    have hout := applyBlock_outcome block (Call.before ⟨environment, block⟩ s)
    obtain ⟨-, hfresh, hstored⟩ := hnew
    rw [Call.result] at hrun
    rw [hrun] at hout
    cases hout with
    | known hold => exact absurd hold hfresh
    | executed batch' next outcome _ hplan hexec =>
      -- The plan reads the batch through the same key, so it is the same batch.
      obtain rfl : batch = batch' := Option.some.inj (hstored.symm.trans hplan.stored)
      have happlied := dryRun_applied hplan.dryRun
      have htree := executePlan_ok hexec
      have htip := happlied.moves.tip
      refine ⟨validateNextBlockLink_height hplan.link, validate_index hplan.valid,
        happlied.structural, ?_, ?_, ?_⟩
      · rw [htree]
        exact happlied.moves.issued
      · rw [htree]
        exact htip
      · rw [htree]
        exact hqueue
  | synced db t t' hvalid hindex hadd hbatch =>
    obtain ⟨haccept, hqueue'⟩ := addBlock_next hadd hindex hqueue
    obtain ⟨-, rfl, -⟩ := acceptNext_ok haccept
    obtain ⟨hinner, hstruct, ⟨touched, hfold⟩, -⟩ := applyBatch_ok hbatch
    have hmoves := foldlM_applyTxkindToState_moves _ _ _ hfold
    refine ⟨hindex, validate_index hvalid, hstruct, hmoves.issued, hmoves.tip, ?_⟩
    change t'.pendingBlocks = ∅
    rw [hinner]
    exact hqueue

/-- Heights count up from zero, every batch passed the structural rules, and the issued
total is the sum of the rewards. -/
structure ChainInvariant [Blake3] (log : List (Block × TransactionBatch)) (s : ChainState) :
    Prop where
  heights : log.map (fun e => e.1.metadata.index.toNat) = List.range log.length
  bounded : ∀ e ∈ log, e.1.metadata.index ≤ maxMetadataIndexHard
  structural : ∀ e ∈ log, validateBatchStructure e.2 = .ok ()
  issued : s.tree.inner.totalIssuedMicro.toNat = (log.map (fun e => e.2.rewardAmount)).sum
  next : s.tree.inner.expectedNextHeight.toNat = log.length
  queue : s.tree.pendingBlocks = ∅

theorem expectedNextHeight_of_tip {s : InnerTree} (h : s.hasTip)
    (hbound : s.tipHeight ≤ maxMetadataIndexHard) :
    s.expectedNextHeight.toNat = s.tipHeight.toNat + 1 := by
  have hlt : s.tipHeight.toNat ≤ 10000000 := UInt64.le_iff_toNat_le.mp hbound
  rw [InnerTree.expectedNextHeight, if_pos h, saturatingAdd_toNat_of_lt]
  · rfl
  · change s.tipHeight.toNat + 1 < 2^64
    omega

theorem ChainInvariant.step [Blake3] {log : List (Block × TransactionBatch)} {s s' : ChainState}
    {block : Block} {batch : TransactionBatch} (h : ChainInvariant log s)
    (hext : Extends s block batch s') : ChainInvariant (log ++ [(block, batch)]) s' where
  heights := by
    have hindex : block.metadata.index.toNat = log.length := by
      rw [hext.height]
      exact h.next
    rw [List.map_append, h.heights, List.length_append, List.map_singleton, hindex,
      List.length_singleton, List.range_succ]
  bounded := by
    intro e he
    rcases List.mem_append.mp he with hold | hnew
    · exact h.bounded e hold
    · rw [List.mem_singleton.mp hnew]
      exact hext.bounded
  structural := by
    intro e he
    rcases List.mem_append.mp he with hold | hnew
    · exact h.structural e hold
    · rw [List.mem_singleton.mp hnew]
      exact hext.structural
  issued := by
    rw [hext.issued, h.issued, List.map_append, List.sum_append, List.map_singleton,
      List.sum_singleton]
  next := by
    have hbound : s'.tree.inner.tipHeight ≤ maxMetadataIndexHard := hext.tip.2 ▸ hext.bounded
    rw [expectedNextHeight_of_tip hext.tip.1 hbound, hext.tip.2, hext.height, h.next,
      List.length_append, List.length_singleton]
  queue := hext.queue

theorem ChainRun.invariant [Blake3] {log : List (Block × TransactionBatch)} {s : ChainState}
    (h : ChainRun log s) : ChainInvariant log s := by
  induction h with
  | start db =>
    refine ⟨rfl, ?_, ?_, rfl, rfl, rfl⟩
    · intro e he
      cases he
    · intro e he
      cases he
  | step _ hacc ih => exact ih.step (hacc.extends ih.queue)

/-- A list of blocks and batches, each newly applied on top of those before it. -/
def acceptsAll [Blake3] (s : ChainState) : List (Block × TransactionBatch) → Bool
  | [] => true
  | e :: rest =>
    decide (¬(s.tree.inner.hasTip ∧ e.1.metadata.index ≤ s.tree.inner.tipHeight)) &&
      decide (storedBatch s.db e.1 = some e.2) &&
      match applyBlock e.1 s with
      | .ok _ s' => acceptsAll s' rest
      | .error _ _ => false

theorem acceptsAll_cons [Blake3] {s : ChainState} {e : Block × TransactionBatch}
    {rest : List (Block × TransactionBatch)} (h : acceptsAll s (e :: rest) = true) :
    ∃ s', Call.result ⟨id, e.1⟩ s = .ok () s' ∧ NewlyApplied ⟨id, e.1⟩ s e.2 ∧
      acceptsAll s' rest = true := by
  simp only [acceptsAll, Bool.and_eq_true, decide_eq_true_eq] at h
  obtain ⟨⟨hfresh, hstored⟩, hrest⟩ := h
  cases hres : applyBlock e.1 s with
  | error err s' =>
    rw [hres] at hrest
    cases hrest
  | ok u s' =>
    rw [hres] at hrest
    have hcall : Call.result ⟨id, e.1⟩ s = .ok () s' := hres
    refine ⟨s', hcall, ⟨?_, hfresh, hstored⟩, hrest⟩
    rw [hcall]
    rfl

/-- A list that is accepted block by block extends a chain, and what follows is still to be
accepted. -/
theorem ChainRun.of_acceptsAll [Blake3] {log : List (Block × TransactionBatch)} {s : ChainState}
    (hrun : ChainRun log s) (more rest : List (Block × TransactionBatch))
    (h : acceptsAll s (more ++ rest) = true) :
    ∃ s', ChainRun (log ++ more) s' ∧ acceptsAll s' rest = true := by
  induction more generalizing log s with
  | nil =>
    rw [List.append_nil]
    exact ⟨s, hrun, h⟩
  | cons e more ih =>
    obtain ⟨s', hcall, hnew, hrest⟩ := acceptsAll_cons h
    have hnext := ih (.step hrun (.applied id s' hcall hnew)) hrest
    rw [List.append_assoc, List.singleton_append] at hnext
    exact hnext

/-- What `apply_block` does with a block that is valid. -/
def applyValid [Blake3] (block : Block) (s : ChainState) : EStateM.Result Failure ChainState Unit :=
  match alreadyCanonical s.tree.inner block with
  | .error e => .error e s
  | .ok true => .ok () s
  | .ok false =>
    match planNext s.db s.tree.inner block with
    | .error e => .error e s
    | .ok (batch, next, outcome) =>
      match executePlan block batch next outcome.touchedAccounts s with
      | .ok () s' => .ok () s'
      | .error e s' => .error e { s' with tree := s.tree }

theorem applyBlockBody_run [Blake3] (block : Block) (s : ChainState) :
    applyBlockBody block s =
      match planBlock s.db s.tree.inner block with
      | .error e => .error e s
      | .ok none => .ok () s
      | .ok (some (batch, next, outcome)) =>
        executePlan block batch next outcome.touchedAccounts s := by
  unfold applyBlockBody
  rw [bind_run]
  change (lift (planBlock s.db s.tree.inner block) >>= _) s = _
  rw [bind_run]
  cases planBlock s.db s.tree.inner block with
  | error e => rfl
  | ok plan => cases plan <;> rfl

theorem applyBlock_of_valid [Blake3] {block : Block} (h : block.validate = .ok ())
    (s : ChainState) : applyBlock block s = applyValid block s := by
  have hplan : planBlock s.db s.tree.inner block = (alreadyCanonical s.tree.inner block >>= fun known =>
      if known then pure none else planNext s.db s.tree.inner block >>= fun plan => pure (some plan)) := by
    rw [planBlock, h]
    rfl
  rw [applyBlock, applyBlockBody_run, hplan, applyValid]
  cases alreadyCanonical s.tree.inner block with
  | error e => rfl
  | ok known =>
    cases known with
    | true => rfl
    | false => cases planNext s.db s.tree.inner block <;> rfl

/-- `acceptsAll` for blocks that are known to be valid. -/
def appliesAll [Blake3] (s : ChainState) : List (Block × TransactionBatch) → Bool
  | [] => true
  | e :: rest =>
    decide (¬(s.tree.inner.hasTip ∧ e.1.metadata.index ≤ s.tree.inner.tipHeight)) &&
      decide (storedBatch s.db e.1 = some e.2) &&
      match applyValid e.1 s with
      | .ok _ s' => appliesAll s' rest
      | .error _ _ => false

theorem acceptsAll_of_valid [Blake3] {log : List (Block × TransactionBatch)} {s : ChainState}
    (hvalid : ∀ e ∈ log, e.1.validate = .ok ()) (h : appliesAll s log = true) :
    acceptsAll s log = true := by
  induction log generalizing s with
  | nil => rfl
  | cons e rest ih =>
    obtain ⟨hfirst, hrest⟩ := List.forall_mem_cons.mp hvalid
    rw [acceptsAll, applyBlock_of_valid hfirst]
    rw [appliesAll] at h
    cases hout : applyValid e.1 s with
    | error err s' =>
      rw [hout, Bool.and_false] at h
      cases h
    | ok u s' =>
      rw [hout, Bool.and_eq_true] at h
      rw [Bool.and_eq_true]
      exact ⟨h.1, ih hrest h.2⟩

/-! ### A short chain

An empty first block, a reward, and two blocks that carry the same payment, with the hashes
the published function gives them. -/

namespace Sample

def hashOfWords (hi lo : ℕ) : Hash :=
  ⟨(List.range 64).map fun i => UInt8.ofNat ((hi*2^256 + lo)/256^(63-i)), by simp⟩

/-- `r` and 128 times the same digit. -/
def wallet (digit : UInt8) : WalletArray := ⟨114 :: List.replicate 128 digit, by simp⟩

def miner : String := "r" ++ String.ofList (List.replicate 128 'a')

def signature : SignatureArray :=
  ⟨1 :: List.replicate 3308 0, by rw [List.length_cons, List.length_replicate]⟩

def payout : RewardTx := ⟨wallet 97, 2000000000, 1, 1700000000⟩

def payment (amount : UInt64) : Transaction := ⟨wallet 97, wallet 98, amount, 1700000000⟩

def batch0 : TransactionBatch := ⟨0, 1700000000, [], none⟩
def batch1 : TransactionBatch := ⟨1, 1700000030, [.reward payout], none⟩
def batch2 : TransactionBatch := ⟨2, 1700000060, [.transfer (payment 1)], none⟩
def batch3 : TransactionBatch := ⟨3, 1700000090, [.transfer (payment 1)], none⟩

def root0 : Hash := hashOfWords 0x29f984fad3389b577d75f22c4c849b1a848fb2ae9e458778ea36bd1765a79dab
  0xa125ff8ddc15a35c4804d0611f527dce6ca60507f8b505c6afc1bd44ea1d27a5

def root1 : Hash := hashOfWords 0x4af2a6053368ceae7519f45c4429d4d9ee1f7698898cdca5784289b391e546a7
  0x2f4e6776fbf93fbe74714b5c85dd9c5207053c0754da7fd47b0cd149ef39a466

def root2 : Hash := hashOfWords 0x269386c594e1db70d62255f223ac1d9b4db40f89798228cd05f534a70babfeef
  0x10469db0267f001d0a6a8819d668dfc79e75c1665abe6591d92e92f686914211

def hash0 : Hash := hashOfWords 0x3b55bdad7572cd0bbe1b43806558f818b24b75b70c7f4138df04977d0dd61c3e
  0xc1b0a2ac74d57202028ad4f73de71ebf3380a3071df1a99d87413c6f15d7d337

def hash1 : Hash := hashOfWords 0x71f110ae2fbf490f23cc1838253efe3d72bac30819a20bf61d18b33f62800981
  0x5c7ae7ca5aef00342073684e5df6e9ce2618203b1885651bc2ab212065dcd865

def hash2 : Hash := hashOfWords 0x6047c5d3dcdbd3bb40c0515844142e226bb295f89c02f1c8d2fc7f17a1a4eb5a
  0x7fd06e6ae8d265d126e695187593e356b81aa43ad5604ea63328bfbdb7bf78ae

def hash3 : Hash := hashOfWords 0x10fd9c9ea05d5ab51892bdf237ffa4c77477339f1ad574e828e823a8b0e34bc3
  0xc3f4544a34c23337e054be2046a953a2c1e9f8cd4b05508f870e95752b0e2b40

def block (index timestamp : UInt64) (previousHash merkleRoot hash : Hash) : Block :=
  ⟨⟨index, timestamp, previousHash, merkleRoot, signature, none, 2097152⟩,
    some (batchKeyString index), miner, hash, 0⟩

def block0 : Block := block 0 1700000000 zeroHash root0 hash0
def block1 : Block := block 1 1700000030 hash0 root1 hash1
def block2 : Block := block 2 1700000060 hash1 root2 hash2
def block3 : Block := block 3 1700000090 hash2 root2 hash3

/-- An empty block beside `block1`. -/
def emptyBlock1 : Block := block 1 1700000030 hash0 root0
  (hashOfWords 0xe99b910f59e46f51404f818cf53bb0d71f6501655c305759e34c10313f42b413
    0x79392727a7a8c3def79b6aabd725dcca4a63d8c786d2c18d9e0afd1c20213943)

/-- The batches under their keys. -/
def db : RockDB :=
  (((RockDB.empty.storeBatchBytes 0 batch0.serialize).storeBatchBytes 1
    batch1.serialize).storeBatchBytes 2 batch2.serialize).storeBatchBytes 3 batch3.serialize

def log : List (Block × TransactionBatch) :=
  [(block0, batch0), (block1, batch1), (block2, batch2), (block3, batch3)]

def start : ChainState := ⟨db, AccountModelTree.withManager⟩

/-! #### Hashes of signed blocks

The signature fills the second and third chunk of the preimage with zeros, so only the first and
the last chunk differ from block to block. -/

/-- The digest of a batch key, as it enters the preimage. -/
def keyDigest [Blake3] (batchKey : Option String) : Hash :=
  match batchKey with
  | some bk =>
    if bk = "" then Blake3.xof64 (asciiBytes "remzar_empty_block_mint")
    else Blake3.xof64 (Text.utf8 bk)
  | none => Blake3.xof64 (asciiBytes "remzar_empty_block_mint")

def firstChunk (m : BlockMetadata) : List UInt8 :=
  m.previousHash.toList ++ m.merkleRoot.toList ++ 1 :: List.replicate 895 0

def lastChunk [Blake3] (batchKey : Option String) (reward : UInt64) : List UInt8 :=
  List.replicate 365 0 ++ (Block.u64Be reward ++ (keyDigest batchKey).toList)

/-- The hash of a block with the signature above. -/
def signedHash [Blake3] (b : Block) : Hash :=
  (Blake3.parentNode
    (Blake3.parentNode (Blake3.chunkChain 0 (firstChunk b.metadata))
      (1366369450995863638063572643476134697431176295053645110538746982128,
        21333701949337374169628591810073225598043462109809607027611641560421)).chain
    (Blake3.parentNode
      (21580002609869305598516532988561690454029165101033801993980919885349,
        14819778592195165933303659120989304503911973358712716549270222575093)
      (Blake3.chunkChain 3 (lastChunk b.batchKey b.reward))).chain).output

theorem zeroChunks :
    Blake3.chunkChain 1 (List.replicate 1024 0) =
      (1366369450995863638063572643476134697431176295053645110538746982128,
        21333701949337374169628591810073225598043462109809607027611641560421) ∧
    Blake3.chunkChain 2 (List.replicate 1024 0) =
      (21580002609869305598516532988561690454029165101033801993980919885349,
        14819778592195165933303659120989304503911973358712716549270222575093) := by
  decide +kernel

theorem referenceXof64_signed {b : Block} (h : b.metadata.guardianSignature = signature) :
    Blake3.referenceXof64 (@Block.hashPreimage Blake3.reference b.metadata b.batchKey b.reward) =
      @signedHash Blake3.reference b := by
  have hsig : b.metadata.guardianSignature.toList = 1 :: List.replicate 895 0 ++
      (List.replicate 1024 0 ++ (List.replicate 1024 0 ++ List.replicate 365 0)) := by
    rw [h]
    change 1 :: List.replicate 3308 0 = _
    rw [← List.replicate_add, ← List.replicate_add, List.cons_append, ← List.replicate_add]
  have hlen : (Block.u64Be b.reward).length = 8 := by
    rw [Block.u64Be, List.length_map, List.length_range]
  have hsplit : @Block.hashPreimage Blake3.reference b.metadata b.batchKey b.reward =
      (firstChunk b.metadata ++ List.replicate 1024 0) ++
        (List.replicate 1024 0 ++ @lastChunk Blake3.reference b.batchKey b.reward) := by
    change b.metadata.previousHash.toList ++ b.metadata.merkleRoot.toList ++
      b.metadata.guardianSignature.toList ++ Block.u64Be b.reward ++
        (@keyDigest Blake3.reference b.batchKey).toList = _
    rw [hsig, firstChunk]
    unfold lastChunk
    simp only [List.append_assoc, List.cons_append]
  rw [hsplit, Blake3.referenceXof64_fourChunks, zeroChunks.1, zeroChunks.2]
  · rfl
  · rw [firstChunk]
    simp only [List.length_append, List.length_cons, List.length_replicate,
      List.Vector.toList_length]
  · exact List.length_replicate
  · exact List.length_replicate
  · unfold lastChunk
    rw [List.length_append, List.length_append, hlen]
    omega
  · unfold lastChunk
    rw [List.length_append, List.length_append, List.length_replicate, hlen,
      List.Vector.toList_length]
    omega

/-- A block with the signature above that carries its hash. -/
structure Signed (b : Block) : Prop where
  signature : b.metadata.guardianSignature = signature
  hash : @signedHash Blake3.reference b = b.blockHash
  presentable : b.presentable = true

theorem Signed.computeBlockHash {b : Block} (h : Signed b) :
    b.blockHash = @Block.computeBlockHash Blake3.reference b :=
  h.hash.symm.trans (referenceXof64_signed h.signature).symm

theorem Signed.valid {b : Block} (h : Signed b) : @Block.validate Blake3.reference b = .ok () :=
  @Block.valid_of_presentable Blake3.reference b h.presentable h.computeBlockHash

theorem Signed.stored {b : Block} (h : Signed b) :
    @Block.serializeForStorage Blake3.reference b = .ok (Block.codec.enc b) ∧
      Block.deserializeFromStorage (Block.codec.enc b) = .ok b :=
  @Block.stored_of_presentable Blake3.reference b h.presentable h.computeBlockHash

/-- The hashes of some blocks, to be looked up where a run needs them again. -/
def hashTable (blocks : List Block) : List (List UInt8 × Hash) :=
  blocks.map fun b =>
    (@Block.hashPreimage Blake3.reference b.metadata b.batchKey b.reward, b.blockHash)

theorem cached_of_signed {blocks : List Block} (h : ∀ b ∈ blocks, Signed b) :
    Blake3.cached (hashTable blocks) = Blake3.reference := by
  apply Blake3.cached_eq
  intro e he
  obtain ⟨b, hb, rfl⟩ := List.mem_map.mp he
  exact (h b hb).computeBlockHash.symm

def checksOut (b : Block) : Bool :=
  decide (@signedHash Blake3.reference b = b.blockHash) && b.presentable

theorem signed_of_checksOut {blocks : List Block}
    (hsig : ∀ b ∈ blocks, b.metadata.guardianSignature = signature)
    (h : blocks.all checksOut = true) : ∀ b ∈ blocks, Signed b := by
  intro b hb
  have hchecks := List.all_eq_true.mp h b hb
  rw [checksOut, Bool.and_eq_true, decide_eq_true_eq] at hchecks
  exact ⟨hsig b hb, hchecks.1, hchecks.2⟩

theorem signed_log : ∀ b ∈ emptyBlock1 :: log.map Prod.fst, Signed b := by
  apply signed_of_checksOut
  · simp only [log, List.map_cons, List.map_nil, List.forall_mem_cons]
    exact ⟨rfl, rfl, rfl, rfl, rfl, fun _ h => nomatch h⟩
  · decide +kernel

theorem signed_emptyBlock1 : Signed emptyBlock1 := signed_log _ List.mem_cons_self

theorem signed_of_mem_log {e : Block × TransactionBatch} (he : e ∈ log) : Signed e.1 :=
  signed_log e.1 (List.mem_cons_of_mem _ (List.mem_map_of_mem he))

theorem signed_block0 : Signed block0 := signed_of_mem_log (e := (block0, batch0)) (by simp [log])

theorem signed_block1 : Signed block1 := signed_of_mem_log (e := (block1, batch1)) (by simp [log])

theorem cached_log :
    Blake3.cached (hashTable (emptyBlock1 :: log.map Prod.fst)) = Blake3.reference :=
  cached_of_signed signed_log

theorem acceptsAll_of_signed {log : List (Block × TransactionBatch)} {s : ChainState}
    (hsigned : ∀ e ∈ log, Signed e.1) (h : @appliesAll Blake3.reference s log = true) :
    @acceptsAll Blake3.reference s log = true :=
  @acceptsAll_of_valid Blake3.reference log s (fun e he => (hsigned e he).valid) h

end Sample

end Remzar
