import Mathlib
import Remzar.Binding
import Remzar.LeaderSchedule
import Remzar.Lib.Chunks

/-! The election of a leader, over all nodes and times: one wallet for each window of a height, and
one committee for each committee hash. -/
namespace Remzar
open Std Fallible Checked Text

namespace LeaderSchedule

/-! ### The committee -/

/-- The members of a canonical set are the canonical forms of what was listed. -/
theorem mem_canonSet {raw wallets : List String} (h : canonSet raw = .ok wallets) (w : String) :
    w ∈ wallets ↔ ∃ id ∈ raw, canonWalletIdChecked id = .ok w := by
  simp only [canonSet, bind_eq_ok_iff, pure_eq_ok_iff] at h
  obtain ⟨canon, hcanon, rfl⟩ := h
  rw [ExtTreeSet.mem_toList, ExtTreeSet.mem_ofList, List.contains_iff_mem]
  have hmatched := List.forall₂_iff_get.mp (forall₂_of_mapM hcanon)
  obtain ⟨hlen, hget⟩ := hmatched
  constructor
  · intro hw
    obtain ⟨i, hi, rfl⟩ := List.getElem_of_mem hw
    exact ⟨raw[i], List.getElem_mem (hlen ▸ hi), hget i (hlen ▸ hi) hi⟩
  · rintro ⟨id, hid, hcan⟩
    obtain ⟨i, hi, rfl⟩ := List.getElem_of_mem hid
    have hat : canonWalletIdChecked raw[i] = .ok canon[i] := hget i hi (hlen ▸ hi)
    rw [Except.ok.inj (hcan.symm.trans hat)]
    exact List.getElem_mem (hlen ▸ hi)

/-- What is canonical already stays as it is. -/
theorem canonSet_idem {raw wallets : List String} (h : canonSet raw = .ok wallets) :
    canonSet wallets = .ok wallets := by
  have hmem := mem_canonSet h
  have hself : wallets.mapM canonWalletIdChecked = .ok wallets := by
    have hall : ∀ w ∈ wallets, canonWalletIdChecked w = .ok w := fun w hw => by
      obtain ⟨id, -, hid⟩ := (hmem w).mp hw
      exact (canonWalletIdChecked_canonical hid).checked
    clear h hmem
    induction wallets with
    | nil => rfl
    | cons w ws ih =>
      rw [List.mapM_cons, hall w List.mem_cons_self, ok_bind,
        ih fun x hx => hall x (List.mem_cons_of_mem w hx)]
      rfl
  simp only [canonSet, bind_eq_ok_iff, pure_eq_ok_iff] at h
  obtain ⟨canon, -, rfl⟩ := h
  rw [canonSet, hself, ok_bind]
  refine congrArg (fun t => Except.ok (ExtTreeSet.toList t)) (ExtTreeSet.ext_mem fun w => ?_)
  rw [ExtTreeSet.mem_ofList, List.contains_iff_mem, ExtTreeSet.mem_toList]

section
variable [Blake3] {vs : ValidatorState} {tm : TimeManager} {parentHash : Hash} {height : UInt64}
  {s : CommitteeSnapshot}

/-- What a committee is made of. -/
theorem committeeSnapshot_parts (h : committeeSnapshot vs tm parentHash height = .ok s) :
    height ≠ 0 ∧ s.height = height ∧ s.parentHash = parentHash ∧
      s.activationDelayBlocks = tm.proposerDelayBlocks ∧
      s.committeeHash = computeCommitteeHash parentHash height tm.proposerDelayBlocks s.validators ∧
      ∀ v ∈ s.validators, CanonicalWallet v := by
  simp only [committeeSnapshot, bind_eq_ok_iff, pure_eq_ok_iff] at h
  obtain ⟨validators, hvalidators, _, -, rfl⟩ := h
  simp only [canonicalValidatorsForHeight, normalizeActiveValidators, bind_eq_ok_iff,
    pure_eq_ok_iff, rejectIf_eq_ok_iff] at hvalidators
  obtain ⟨_, hheight, _, -, _, -, wallets, hset, _, -, _, -, rfl⟩ := hvalidators
  refine ⟨hheight, rfl, rfl, rfl, rfl, fun v hv => ?_⟩
  obtain ⟨id, -, hid⟩ := (mem_canonSet hset v).mp hv
  exact canonWalletIdChecked_canonical hid

end

/-! ### Committee hashes -/

/-- What a committee hash is the hash of. -/
def committeePreimage (parentHash : Hash) (height delay : UInt64) (validators : List String) :
    List UInt8 :=
  asciiBytes "remzar:por:committee:v3|" ++ parentHash.toList ++ Block.u64Be height ++
    Block.u64Be delay ++ validators.flatMap fun v => asciiBytes "|" ++ utf8 v

theorem u64Be_inj {m n : UInt64} (h : Block.u64Be m = Block.u64Be n) : m = n := by
  rw [← decode_u64Be m, ← decode_u64Be n, h]

theorem committeePreimage_inj {parentHash parentHash' : Hash} {height height' delay delay' : UInt64}
    {validators validators' : List String} (hcanon : ∀ v ∈ validators, CanonicalWallet v)
    (hcanon' : ∀ v ∈ validators', CanonicalWallet v)
    (h : committeePreimage parentHash height delay validators =
      committeePreimage parentHash' height' delay' validators') :
    parentHash = parentHash' ∧ height = height' ∧ delay = delay' ∧ validators = validators' := by
  rw [committeePreimage, committeePreimage] at h
  simp only [List.append_assoc, List.append_cancel_left_eq] at h
  obtain ⟨hparent, h⟩ := vector_append_inj h
  obtain ⟨hheight, h⟩ := List.append_inj h (by rw [u64Be_length, u64Be_length])
  obtain ⟨hdelay, h⟩ := List.append_inj h (by rw [u64Be_length, u64Be_length])
  have hlen : ∀ v, CanonicalWallet v →
      (asciiBytes "|" ++ utf8 v).length = (asciiBytes "|").length + remzarWalletLen := fun v hv => by
    rw [List.length_append, ← hv.len]
    rfl
  refine ⟨hparent, u64Be_inj hheight, u64Be_inj hdelay, ?_⟩
  refine Chunks.flatMap_inj (Nat.lt_of_lt_of_le (by decide) (Nat.le_add_left remzarWalletLen _))
    (fun v hv => hlen v (hcanon v hv)) (fun v hv => hlen v (hcanon' v hv)) ?_ h
  intro v w hvw
  exact utf8_injective (List.append_cancel_left hvw)

/-! ### Order -/

instance scoreOrder_trans : TransCmp scoreOrder :=
  inferInstanceAs (TransCmp (compareLex (compareOn fun a : Hash × String => a.1.toList)
    (compareOn fun a : Hash × String => utf8 a.2)))

section
variable [Blake3]

/-- The validators in the order of a round, which is the order of their scores. -/
theorem orderedValidatorsForRound_ok {s : CommitteeSnapshot} (round : UInt64)
    (h : validateSnapshotInvariants s = .ok ()) :
    ∃ ordered, orderedValidatorsForRound s round = .ok ordered ∧ ordered.Perm s.validators ∧
      ordered.Pairwise fun v w =>
        (scoreOrder (leaderScore s.committeeHash s.parentHash s.height round v, v)
          (leaderScore s.committeeHash s.parentHash s.height round w, w)).isLE := by
  let score := fun v => (leaderScore s.committeeHash s.parentHash s.height round v, v)
  let r := fun a b : Hash × String => (scoreOrder a b).isLE = true
  have htotal : Std.Total r := ⟨fun a b => by
    have hswap : scoreOrder b a = (scoreOrder a b).swap := OrientedCmp.eq_swap
    change (scoreOrder a b).isLE = true ∨ (scoreOrder b a).isLE = true
    rw [hswap]
    cases scoreOrder a b with
    | lt => exact Or.inl rfl
    | eq => exact Or.inl rfl
    | gt => exact Or.inr rfl⟩
  have htrans : IsTrans (Hash × String) r := ⟨fun a b c => TransCmp.isLE_trans⟩
  have hsorted := List.pairwise_insertionSort r (s.validators.map score)
  have hperm := List.perm_insertionSort r (s.validators.map score)
  refine ⟨((s.validators.map score).insertionSort r).map Prod.snd, ?_, ?_, ?_⟩
  · rw [orderedValidatorsForRound, h]
    rfl
  · have hback := hperm.map Prod.snd
    rw [List.map_map] at hback
    exact hback.trans (List.Perm.of_eq (List.map_id _))
  · have hscored : ∀ a ∈ (s.validators.map score).insertionSort r, a = score a.2 := by
      intro a ha
      obtain ⟨v, -, rfl⟩ := List.mem_map.mp (hperm.mem_iff.mp ha)
      rfl
    rw [List.pairwise_map]
    refine hsorted.imp_of_mem fun {a b} ha hb hab => ?_
    rw [hscored a ha, hscored b hb] at hab
    exact hab

/-- The leader of a round is the validator of the least score. -/
theorem leaderForRound_least {s : CommitteeSnapshot} (h : validateSnapshotInvariants s = .ok ())
    (round : UInt64) : ∃ d, leaderForRound s round = .ok d ∧ d.leader ∈ s.validators ∧
      ∀ v ∈ s.validators,
        (scoreOrder (leaderScore s.committeeHash s.parentHash s.height round d.leader, d.leader)
          (leaderScore s.committeeHash s.parentHash s.height round v, v)).isLE = true := by
  obtain ⟨d, hd, hmem⟩ := leaderForRound_ok h round
  obtain ⟨ordered, hordered, hperm, hsorted⟩ := orderedValidatorsForRound_ok round h
  refine ⟨d, hd, hmem, fun v hv => ?_⟩
  rw [leaderForRound, h, ok_bind, hordered, ok_bind, bind_eq_ok_iff] at hd
  obtain ⟨leader, hhead, hrest⟩ := hd
  simp only [bind_eq_ok_iff, pure_eq_ok_iff, okOr_eq_ok_iff] at hrest hhead
  obtain ⟨index, -, rfl⟩ := hrest
  obtain ⟨rest, rfl⟩ : ∃ rest, ordered = leader :: rest :=
    ⟨_, List.eq_cons_of_mem_head? (Option.mem_def.mpr hhead)⟩
  rcases List.mem_cons.mp (hperm.mem_iff.mpr hv) with rfl | hrest
  · have hself : ∀ a, scoreOrder a a = .eq := fun a => ReflCmp.compare_self
    rw [hself]
    rfl
  · exact (List.pairwise_cons.mp hsorted).1 v hrest

end

section
variable [Blake3] {vs : ValidatorState} {tm : TimeManager} {height : UInt64}

/-- A committee never fails its own check. -/
theorem committeeSnapshot_of_validators {validators : List String}
    (h : canonicalValidatorsForHeight vs tm height = .ok validators) (parentHash : Hash) :
    committeeSnapshot vs tm parentHash height = .ok ⟨height, parentHash, tm.proposerDelayBlocks,
      validators, computeCommitteeHash parentHash height tm.proposerDelayBlocks validators⟩ := by
  rw [committeeSnapshot, h, ok_bind]
  simp only [canonicalValidatorsForHeight, normalizeActiveValidators, bind_eq_ok_iff,
    pure_eq_ok_iff, rejectIf_eq_ok_iff] at h
  obtain ⟨_, hheight, _, -, _, -, wallets, hset, _, hne, _, hcap, rfl⟩ := h
  dsimp only
  rw [validateSnapshotInvariants, rejectIf_of_not _ hheight, ok_bind, rejectIf_of_not _ hne, ok_bind,
    rejectIf_of_not _ hcap, ok_bind, canonSet_idem hset, ok_bind, rejectIf_of_not _ (not_not.mpr rfl),
    ok_bind, rejectIf_of_not _ (not_not.mpr rfl), ok_bind]
  rfl

end

/-! ### Windows -/

/-- The window of a height that a time falls into. -/
def window (tm : TimeManager) (height t : UInt64) : UInt64 :=
  saturatingSub t (heightStartUnix tm height)/tau tm

theorem tau_pos (tm : TimeManager) : 0 < (tau tm).toNat := by
  have hle : (1 : UInt64).toNat ≤ (tau tm).toNat := by
    rw [tau, UInt64.toNat_max]
    exact Nat.le_max_right _ _
  exact hle

theorem window_toNat (tm : TimeManager) (height t : UInt64) :
    (window tm height t).toNat = (t.toNat - (heightStartUnix tm height).toNat)/(tau tm).toNat := by
  rw [window, UInt64.toNat_div, saturatingSub_toNat]

/-- A round starts at a whole number of windows; nothing saturates. -/
theorem roundForHeightFromTimestamp_ok {tm : TimeManager} {height t : UInt64} {time : RoundTime}
    (h : roundForHeightFromTimestamp tm height t = .ok time) :
    heightStartUnix tm height ≤ t ∧ time.round = window tm height t ∧
      time.roundStart.toNat = (heightStartUnix tm height).toNat +
        (window tm height t).toNat*(tau tm).toNat := by
  simp only [roundForHeightFromTimestamp, bind_eq_ok_iff, rejectIf_eq_ok_iff, pure_eq_ok_iff] at h
  obtain ⟨_, -, _, hstart, rfl⟩ := h
  have hle := UInt64.not_lt.mp hstart
  refine ⟨hle, rfl, ?_⟩
  change (saturatingAdd (heightStartUnix tm height)
    (saturatingMul (window tm height t) (tau tm))).toNat = _
  have hbound : (window tm height t).toNat*(tau tm).toNat ≤
      t.toNat - (heightStartUnix tm height).toNat := by
    rw [window_toNat]
    exact Nat.div_mul_le_self _ _
  have ht := t.toNat_lt
  have hsle := UInt64.le_iff_toNat_le.mp hle
  have hmul : (saturatingMul (window tm height t) (tau tm)).toNat =
      (window tm height t).toNat*(tau tm).toNat := by
    rw [saturatingMul, if_pos (by omega), UInt64.toNat_mul, Nat.mod_eq_of_lt (by omega)]
  rw [saturatingAdd_toNat_of_lt _ _ (by omega), hmul]

/-- The times between the start of a window and the next one are in it. -/
theorem window_of_between {tm : TimeManager} {height t : UInt64} {k : ℕ}
    (hlow : (heightStartUnix tm height).toNat + k*(tau tm).toNat ≤ t.toNat)
    (hhigh : t.toNat < (heightStartUnix tm height).toNat + k*(tau tm).toNat + (tau tm).toNat) :
    heightStartUnix tm height ≤ t ∧ (window tm height t).toNat = k := by
  refine ⟨UInt64.le_iff_toNat_le.mpr (by omega), ?_⟩
  rw [window_toNat, Nat.div_eq_iff (tau_pos tm)]
  omega

/-! ### One proposer for each window -/

section
variable [Blake3]

/-- A validator takes a block of this time from this wallet. -/
def Proposes (vs : ValidatorState) (tm : TimeManager) (parentHash : Hash) (height t : UInt64)
    (wallet : String) : Prop :=
  canonWalletIdChecked wallet = .ok wallet ∧
    succeeds (validateProposerFromBlockTimestamp vs tm parentHash height t wallet) = true

variable {vs : ValidatorState} {tm : TimeManager} {parentHash : Hash} {height : UInt64}

theorem proposes_iff {t : UInt64} {wallet : String} :
    Proposes vs tm parentHash height t wallet ↔ canonWalletIdChecked wallet = .ok wallet ∧
      scheduledLeader vs tm parentHash height t = some wallet :=
  and_congr_right fun hwallet => validateProposerFromBlockTimestamp_iff hwallet t

/-- Where there is a committee, each time from the start of the height on has a leader in it. -/
theorem scheduledLeader_of_committee {s : CommitteeSnapshot}
    (hs : committeeSnapshot vs tm parentHash height = .ok s) {t : UInt64}
    (ht : heightStartUnix tm height ≤ t) :
    ∃ w ∈ s.validators, scheduledLeader vs tm parentHash height t = some w := by
  obtain ⟨hvalid, -⟩ := committeeSnapshot_ok hs
  obtain ⟨hheight, -⟩ := committeeSnapshot_parts hs
  obtain ⟨d, hd, hmem⟩ := leaderForRound_ok hvalid (window tm height t)
  refine ⟨d.leader, hmem, ?_⟩
  have hround : ∃ time, roundForHeightFromTimestamp tm height t = .ok time ∧
      time.round = window tm height t := by
    rw [roundForHeightFromTimestamp, rejectIf_of_not _ hheight, ok_bind]
    dsimp only
    rw [rejectIf_of_not _ (UInt64.not_lt.mpr ht), ok_bind]
    exact ⟨_, rfl, rfl⟩
  obtain ⟨time, htime, hwindow⟩ := hround
  rw [scheduledLeader, traceForTimestamp, traceAt, hs, ok_bind, htime, ok_bind, hwindow, hd]
  rfl

theorem committee_of_scheduledLeader {t : UInt64} {w : String}
    (h : scheduledLeader vs tm parentHash height t = some w) :
    succeeds (committeeSnapshot vs tm parentHash height) = true := by
  rw [scheduledLeader, traceForTimestamp, traceAt] at h
  cases hs : committeeSnapshot vs tm parentHash height with
  | ok s => rfl
  | error e =>
    rw [hs] at h
    cases h

theorem proposes_exists_iff {t : UInt64} : (∃ w, Proposes vs tm parentHash height t w) ↔
    succeeds (committeeSnapshot vs tm parentHash height) = true ∧ heightStartUnix tm height ≤ t := by
  constructor
  · rintro ⟨w, hw⟩
    have hleader := (proposes_iff.mp hw).2
    exact ⟨committee_of_scheduledLeader hleader, scheduledLeader_start hleader⟩
  · rintro ⟨hs, ht⟩
    obtain ⟨s, hs⟩ := (succeeds_iff _).mp hs
    obtain ⟨w, hmem, hleader⟩ := scheduledLeader_of_committee hs ht
    obtain ⟨-, -, -, -, -, hcanon⟩ := committeeSnapshot_parts hs
    exact ⟨w, proposes_iff.mpr ⟨(hcanon w hmem).checked, hleader⟩⟩

theorem proposes_unique {t t' : UInt64} {w w' : String} (h : Proposes vs tm parentHash height t w)
    (h' : Proposes vs tm parentHash height t' w')
    (hwindow : window tm height t = window tm height t') : w = w' := by
  obtain ⟨-, hleader⟩ := proposes_iff.mp h
  obtain ⟨-, hleader'⟩ := proposes_iff.mp h'
  rw [scheduledLeader_same_round (scheduledLeader_start hleader) (scheduledLeader_start hleader')
    hwindow, hleader'] at hleader
  exact (Option.some.inj hleader).symm

/-- An authorized miner is accepted for every time of the window that it was authorized in. -/
theorem proposes_of_authorized {wallet : String} {eligibility : CommitteeEligibility}
    {now : UInt64} {trace : LeaderTrace} (hwallet : canonWalletIdChecked wallet = .ok wallet)
    (h : assertLocalCanMintNow vs tm parentHash height wallet eligibility now = .ok trace)
    {t : UInt64} (hlow : trace.roundStartUnix ≤ t)
    (hhigh : t.toNat < trace.roundStartUnix.toNat + (tau tm).toNat) :
    Proposes vs tm parentHash height t wallet := by
  have hleader := assertLocalCanMintNow_leader hwallet h
  simp only [assertLocalCanMintNow, traceForNow, traceAt, roundForHeightNow, bind_eq_ok_iff,
    pure_eq_ok_iff] at h
  obtain ⟨_, ⟨s, -, time, ⟨_, -, _, -, htime⟩, d, -, rfl⟩, _, -, _, -, _, -, rfl⟩ := h
  obtain ⟨hstart, hround, hroundStart⟩ := roundForHeightFromTimestamp_ok htime
  have hlow' := UInt64.le_iff_toNat_le.mp hlow
  change time.roundStart.toNat ≤ t.toNat at hlow'
  change t.toNat < time.roundStart.toNat + (tau tm).toNat at hhigh
  rw [hroundStart] at hlow' hhigh
  obtain ⟨ht, hwindow⟩ := window_of_between hlow' hhigh
  refine proposes_iff.mpr ⟨hwallet, ?_⟩
  rw [← hleader]
  exact scheduledLeader_same_round ht hstart (UInt64.toNat_inj.mp hwindow)

end

/-- Committees with one hash are one committee, unless two of the preimages collide; and then every
round has one leader, the member of the least score. -/
theorem equal_hash_equal_election [Blake3] (vs vs' : ValidatorState) (tm tm' : TimeManager)
    (parentHash parentHash' : Hash) (height height' : UInt64) (s s' : CommitteeSnapshot)
    (hs : committeeSnapshot vs tm parentHash height = .ok s)
    (hs' : committeeSnapshot vs' tm' parentHash' height' = .ok s')
    (hhash : s.committeeHash = s'.committeeHash)
    (hfree : Blake3.xof64 (committeePreimage s.parentHash s.height s.activationDelayBlocks
        s.validators) =
      Blake3.xof64 (committeePreimage s'.parentHash s'.height s'.activationDelayBlocks
        s'.validators) →
      committeePreimage s.parentHash s.height s.activationDelayBlocks s.validators =
        committeePreimage s'.parentHash s'.height s'.activationDelayBlocks s'.validators) :
    s = s' ∧ ∀ round, ∃ d, leaderForRound s round = .ok d ∧ leaderForRound s' round = .ok d ∧
      d.leader ∈ s.validators ∧ ∀ v ∈ s.validators,
        (scoreOrder (leaderScore s.committeeHash s.parentHash s.height round d.leader, d.leader)
          (leaderScore s.committeeHash s.parentHash s.height round v, v)).isLE = true := by
  obtain ⟨hvalid, -⟩ := committeeSnapshot_ok hs
  obtain ⟨-, hheight, hparent, hdelay, hcommittee, hcanon⟩ := committeeSnapshot_parts hs
  obtain ⟨-, hheight', hparent', hdelay', hcommittee', hcanon'⟩ := committeeSnapshot_parts hs'
  have hxof : Blake3.xof64 (committeePreimage s.parentHash s.height s.activationDelayBlocks
      s.validators) =
      Blake3.xof64 (committeePreimage s'.parentHash s'.height s'.activationDelayBlocks
        s'.validators) := by
    rw [hparent, hheight, hdelay, hparent', hheight', hdelay']
    exact hcommittee.symm.trans (hhash.trans hcommittee')
  obtain ⟨hparents, hheights, hdelays, hvalidators⟩ :=
    committeePreimage_inj hcanon hcanon' (hfree hxof)
  have hsame : s = s' := by
    obtain ⟨h₁, p₁, a₁, v₁, c₁⟩ := s
    obtain ⟨h₂, p₂, a₂, v₂, c₂⟩ := s'
    simp only at hheights hparents hdelays hvalidators hhash
    rw [hheights, hparents, hdelays, hvalidators, hhash]
  refine ⟨hsame, fun round => ?_⟩
  obtain ⟨d, hd, hmem, hleast⟩ := leaderForRound_least hvalid round
  exact ⟨d, hd, hsame ▸ hd, hmem, hleast⟩

end LeaderSchedule

namespace Sample

/-- A founder alone, entered at this time. -/
def founderAt (time : UInt64) : ValidatorState :=
  (∅ : ValidatorState).insert miner ⟨0, time, 0, time, none⟩

theorem founderAt_validators : LeaderSchedule.canonicalValidatorsForHeight
      (founderAt 1700000000) (.fromGenesisTs 1700000000) 2 = .ok [miner] ∧
    LeaderSchedule.canonicalValidatorsForHeight
      (founderAt 1700000030) (.fromGenesisTs 1700000000) 2 = .ok [miner] := by decide +kernel

end Sample

namespace LeaderSchedule

/-- Nodes that have entered the founder at different times. -/
theorem equal_hash_equal_election_founder : ∃ s s',
    @committeeSnapshot Blake3.reference (Sample.founderAt 1700000000) (.fromGenesisTs 1700000000)
      zeroHash 2 = .ok s ∧
    @committeeSnapshot Blake3.reference (Sample.founderAt 1700000030) (.fromGenesisTs 1700000000)
      zeroHash 2 = .ok s' ∧ s = s' := by
  let : Blake3 := Blake3.reference
  have hs := committeeSnapshot_of_validators Sample.founderAt_validators.1 zeroHash
  have hs' := committeeSnapshot_of_validators Sample.founderAt_validators.2 zeroHash
  exact ⟨_, _, hs, hs', (equal_hash_equal_election _ _ _ _ _ _ _ _ _ _ hs hs' rfl fun _ => rfl).1⟩

/-- A height has a proposer at a time exactly if it has a committee and has started; the times of
one window have one proposer; and a miner that authorizes itself is the proposer of its window. -/
theorem one_proposer_per_window [Blake3] (vs : ValidatorState) (tm : TimeManager)
    (parentHash : Hash) (height : UInt64) :
    (∀ t, (∃ w, Proposes vs tm parentHash height t w) ↔
      succeeds (committeeSnapshot vs tm parentHash height) = true ∧
        heightStartUnix tm height ≤ t) ∧
    (∀ t t' w w', Proposes vs tm parentHash height t w → Proposes vs tm parentHash height t' w' →
      window tm height t = window tm height t' → w = w') ∧
    ∀ wallet eligibility now trace, canonWalletIdChecked wallet = .ok wallet →
      assertLocalCanMintNow vs tm parentHash height wallet eligibility now = .ok trace →
        ∀ t, trace.roundStartUnix ≤ t → t.toNat < trace.roundStartUnix.toNat + (tau tm).toNat →
          Proposes vs tm parentHash height t wallet :=
  ⟨fun _ => proposes_exists_iff, fun _ _ _ _ => proposes_unique,
    fun _ _ _ _ hwallet h _ => proposes_of_authorized hwallet h⟩

end LeaderSchedule

end Remzar
