import Mathlib
import Remzar.Lib.Accrual
import Remzar.LastResort

/-! Buckets and badness that are looked at often. Each look keeps the whole tokens and moves the
reference time on, so the fraction of a token that had accrued by then is lost. -/
namespace Remzar
open Accrual

/-- What a refill adds after `d`: the exact accrual, with the part of a second clipped where its
product leaves 64 bits. -/
def clipped (r : ℕ) (d : Nanos) : ℕ :=
  min (accrued nanosPerSec r d) (d/nanosPerSec*r+u64Max/nanosPerSec)

theorem clipped_le_accrued (r : ℕ) (d : Nanos) : clipped r d ≤ accrued nanosPerSec r d :=
  Nat.min_le_left _ _

theorem accrued_seconds (r : ℕ) (d : Nanos) :
    accrued nanosPerSec r d = d/nanosPerSec*r+d%nanosPerSec*r/nanosPerSec := by
  have hparts := accrued_parts (r := r) (by decide : 0 < nanosPerSec) (d/nanosPerSec) (d%nanosPerSec)
  rwa [Nat.div_add_mod] at hparts

theorem refillAddU64_eq (d : Nanos) (r : ℕ) : refillAddU64 d r = min (clipped r d) u64Max := by
  unfold refillAddU64 clipped
  rw [accrued_seconds]
  by_cases hr : r = 0
  · rw [if_pos hr, hr]
    simp
  · rw [if_neg hr]
    dsimp only
    generalize d/nanosPerSec*r = whole
    generalize d%nanosPerSec*r = part
    simp only [nanosPerSec, u64Max]
    omega

/-- A rate for which no part of a second is clipped. -/
theorem clipped_eq {r : ℕ} (hr : r*(nanosPerSec-1) ≤ u64Max) (d : Nanos) :
    clipped r d = accrued nanosPerSec r d := by
  apply Nat.min_eq_left
  rw [accrued_seconds]
  have hpart : d%nanosPerSec ≤ nanosPerSec-1 := Nat.le_pred_of_lt (Nat.mod_lt _ (by decide))
  have hproduct : d%nanosPerSec*r ≤ u64Max := by
    calc d%nanosPerSec*r ≤ (nanosPerSec-1)*r := Nat.mul_le_mul_right _ hpart
      _ = r*(nanosPerSec-1) := Nat.mul_comm _ _
      _ ≤ u64Max := hr
  exact Nat.add_le_add_left (Nat.div_le_div_right hproduct) _

theorem clipped_mono (r : ℕ) {d e : Nanos} (h : d ≤ e) : clipped r d ≤ clipped r e := by
  have haccrued : accrued nanosPerSec r d ≤ accrued nanosPerSec r e :=
    Nat.div_le_div_right (Nat.mul_le_mul_left r h)
  have hwhole : d/nanosPerSec*r ≤ e/nanosPerSec*r :=
    Nat.mul_le_mul_right r (Nat.div_le_div_right h)
  exact min_le_min haccrued (Nat.add_le_add_right hwhole _)

/-- Refills at these gaps forget no token against one refill at the end. -/
def SplitsEvenly (r : ℕ) (gaps : List Nanos) : Prop :=
  if r*(nanosPerSec-1) ≤ u64Max then (gaps.map fun d => r*d%nanosPerSec).sum < nanosPerSec
  else (gaps.map (clipped r)).sum = clipped r gaps.sum

theorem splitsEvenly_iff {r : ℕ} {gaps : List Nanos} :
    SplitsEvenly r gaps ↔ (gaps.map (clipped r)).sum = clipped r gaps.sum := by
  unfold SplitsEvenly
  split
  · rename_i hr
    rw [← sum_accrued_iff (by decide), clipped_eq hr, List.map_congr_left fun d _ => clipped_eq hr d]
  · exact Iff.rfl

/-! ### Buckets -/

namespace Bucket
variable {max : ℕ} {b : Bucket max}

theorem refill_tokens (hmax : max ≤ u64Max) (b : Bucket max) (now : Nanos) :
    (b.refill now).tokens = min (b.tokens+clipped b.refillPerSec (now-b.last)) b.cap := by
  have hcap := b.cap_le
  have htokens := b.tokens_le
  unfold refill
  dsimp only
  rw [refillAddU64_eq]
  omega

/-- A bucket that is refilled after each of some gaps. -/
def polled (b : Bucket max) (gaps : List Nanos) : Bucket max :=
  gaps.foldl (fun b d => b.refill (b.last+d)) b

theorem polled_snoc (b : Bucket max) (gaps : List Nanos) (d : Nanos) :
    b.polled (gaps ++ [d]) = (b.polled gaps).refill ((b.polled gaps).last+d) := by
  unfold polled
  rw [List.foldl_append]
  rfl

theorem polled_fixed (b : Bucket max) (gaps : List Nanos) :
    (b.polled gaps).cap = b.cap ∧ (b.polled gaps).refillPerSec = b.refillPerSec := by
  induction gaps using List.reverseRecOn with
  | nil => exact ⟨rfl, rfl⟩
  | append_singleton gaps d ih =>
    rw [polled_snoc]
    exact ih

theorem polled_tokens (hmax : max ≤ u64Max) (b : Bucket max) (gaps : List Nanos) :
    (b.polled gaps).tokens = min (b.tokens+(gaps.map (clipped b.refillPerSec)).sum) b.cap := by
  induction gaps using List.reverseRecOn with
  | nil => exact (Nat.min_eq_left b.tokens_le).symm
  | append_singleton gaps d ih =>
    obtain ⟨hcap, hrate⟩ := b.polled_fixed gaps
    rw [polled_snoc, refill_tokens hmax, hcap, hrate, ih, Nat.add_sub_cancel_left, List.map_append,
      List.sum_append, List.map_singleton, List.sum_singleton]
    omega

/-- The bucket is full at the end of the gaps, polled or not. -/
def FillsAnyway (b : Bucket max) (gaps : List Nanos) : Prop :=
  b.cap ≤ b.tokens+(gaps.map (clipped b.refillPerSec)).sum ∧
    b.cap ≤ b.tokens+clipped b.refillPerSec gaps.sum

theorem polled_tokens_iff (hmax : max ≤ u64Max) (b : Bucket max) (gaps : List Nanos) :
    (b.polled gaps).tokens = (b.refill (b.last+gaps.sum)).tokens ↔
      SplitsEvenly b.refillPerSec gaps ∨ b.FillsAnyway gaps := by
  have htokens := b.tokens_le
  rw [polled_tokens hmax, refill_tokens hmax, Nat.add_sub_cancel_left, splitsEvenly_iff]
  unfold FillsAnyway
  omega

/-! ### Requests at a rate -/

/-- Every request of one cost is served, each made a gap after the one before it. -/
def servesAll (b : Bucket max) (cost : ℕ) : List Nanos → Bool
  | [] => true
  | d :: gaps =>
    let (taken, b) := b.tryTake (b.last+d) cost
    taken && b.servesAll cost gaps

theorem tryTake_served (hmax : max ≤ u64Max) {cost : ℕ} {d : Nanos}
    (hcost : cost ≤ b.tokens+clipped b.refillPerSec d) (hcap : cost ≤ b.cap) :
    ∃ b' : Bucket max, b.tryTake (b.last+d) cost = (true, b') ∧
      b'.tokens = min (b.tokens+clipped b.refillPerSec d) b.cap-cost ∧
      b'.cap = b.cap ∧ b'.refillPerSec = b.refillPerSec := by
  have htokens := b.refill_tokens hmax (b.last+d)
  rw [Nat.add_sub_cancel_left] at htokens
  have hle : cost ≤ (b.refill (b.last+d)).tokens := by omega
  unfold tryTake
  dsimp only
  rw [if_pos hle]
  exact ⟨_, rfl, congrArg (fun n => n-cost) htokens, rfl, rfl⟩

theorem tryTake_refused {cost : ℕ} {now : Nanos} (hcost : ¬cost ≤ (b.refill now).tokens) :
    b.tryTake now cost = (false, b.refill now) := if_neg hcost

/-- Gaps that pay for a request each keep the bucket from running out. -/
theorem servesAll_of_paid (hmax : max ≤ u64Max) {cost : ℕ} (gaps : List Nanos) :
    ∀ b : Bucket max, cost ≤ b.cap → (∀ d ∈ gaps, cost ≤ clipped b.refillPerSec d) →
      b.servesAll cost gaps = true := by
  induction gaps with
  | nil => exact fun _ _ _ => rfl
  | cons d gaps ih =>
    intro b hcap hpaid
    have hd : cost ≤ clipped b.refillPerSec d := hpaid d List.mem_cons_self
    obtain ⟨b', htake, -, hcap', hrate'⟩ :=
      tryTake_served hmax (hd.trans (Nat.le_add_left _ _)) hcap
    have hrest := ih b' (hcap' ▸ hcap)
      (fun e he => hrate' ▸ hpaid e (List.mem_cons_of_mem d he))
    rw [servesAll, htake]
    exact hrest

/-- Gaps that do not pay for a request empty the bucket in the end. -/
theorem servesAll_of_unpaid (hmax : max ≤ u64Max) {cost : ℕ} {d : Nanos} (n : ℕ) :
    ∀ b : Bucket max, b.tokens < n → clipped b.refillPerSec d < cost →
      b.servesAll cost (List.replicate n d) = false := by
  induction n with
  | zero => exact fun b hn _ => absurd hn (Nat.not_lt_zero _)
  | succ n ih =>
    intro b hn hunpaid
    rw [List.replicate_succ, servesAll]
    by_cases hcost : cost ≤ min (b.tokens+clipped b.refillPerSec d) b.cap
    · obtain ⟨b', htake, htokens', -, hrate'⟩ :=
        tryTake_served hmax (hcost.trans (Nat.min_le_left _ _)) (hcost.trans (Nat.min_le_right _ _))
      have hlevel : b'.tokens < n := by omega
      have hrest := ih b' hlevel (hrate' ▸ hunpaid)
      rw [htake]
      exact hrest
    · have htokens := b.refill_tokens hmax (b.last+d)
      rw [Nat.add_sub_cancel_left] at htokens
      rw [tryTake_refused (htokens ▸ hcost)]
      rfl

/-- A bucket that holds one request serves every run of them whose gaps are not shorter than `d`
exactly when the refill of `d` pays for one. -/
theorem servesAll_iff (hmax : max ≤ u64Max) {cost : ℕ} {d : Nanos} (hheld : cost ≤ b.tokens) :
    (∀ first rest, (∀ e ∈ rest, d ≤ e) → b.servesAll cost (first :: rest) = true) ↔
      cost ≤ clipped b.refillPerSec d := by
  have hcap : cost ≤ b.cap := hheld.trans b.tokens_le
  constructor
  · intro hserved
    by_contra hunpaid
    have hrun := hserved d (List.replicate b.tokens d)
      (fun e he => (List.eq_of_mem_replicate he).ge)
    rw [← List.replicate_succ, servesAll_of_unpaid hmax _ b (Nat.lt_succ_self _)
      (Nat.lt_of_not_le hunpaid)] at hrun
    cases hrun
  · intro hpaid first rest hrest
    obtain ⟨b', htake, -, hcap', hrate'⟩ :=
      tryTake_served (d := first) hmax (hheld.trans (Nat.le_add_right _ _)) hcap
    have hserved := servesAll_of_paid hmax rest b' (hcap' ▸ hcap)
      (fun e he => hrate' ▸ hpaid.trans (clipped_mono _ (hrest e he)))
    rw [servesAll, htake]
    exact hserved

theorem le_clipped_iff {cost : ℕ} {d : Nanos} (hrate : cost*nanosPerSec ≤ b.refillPerSec*d) :
    cost ≤ clipped b.refillPerSec d ↔
      cost ≤ d/nanosPerSec*b.refillPerSec+u64Max/nanosPerSec := by
  have haccrued := (le_accrued_iff (by decide)).mpr hrate
  exact ⟨fun h => h.trans (Nat.min_le_right _ _), fun h => Nat.le_min.mpr ⟨haccrued, h⟩⟩

theorem splitsEvenly_iff (b : Bucket32) (gaps : List Nanos) :
    SplitsEvenly b.refillPerSec gaps ↔
      (gaps.map fun d => b.refillPerSec*d%nanosPerSec).sum < nanosPerSec := by
  have hrate := b.refillPerSec_le
  unfold SplitsEvenly
  rw [if_pos]
  simp only [u32Max, u64Max, nanosPerSec] at hrate ⊢
  omega

end Bucket

/-! ### Badness -/

namespace PeerState
variable {ps : PeerState} {cfg : LastResortConfig}

theorem clampI32_toInt (n : ℤ) : (clampI32 n).toInt = Max.max (-2^31) (min n i32Max) := by
  unfold clampI32 i32Max
  rw [Int32.toInt_ofInt_of_le] <;> omega

/-- The points a peer is forgiven in a second. -/
def forgiven (cfg : LastResortConfig) : ℕ := cfg.badnessDecayPerSec.toInt.toNat

theorem forgiven_lt (cfg : LastResortConfig) : forgiven cfg*(nanosPerSec-1) ≤ u64Max := by
  have hlt : cfg.badnessDecayPerSec.toInt < 2^31 := cfg.badnessDecayPerSec.toInt_lt
  simp only [forgiven, nanosPerSec, u64Max]
  omega

theorem decayBadness_idle (hrate : cfg.badnessDecayPerSec ≤ 0) (ps : PeerState) (now : Nanos) :
    (ps.decayBadness cfg now).badness = ps.badness := by
  unfold decayBadness
  dsimp only
  rw [if_pos hrate]

theorem decayBadness_toInt (hrate : ¬cfg.badnessDecayPerSec ≤ 0) (ps : PeerState) (now : Nanos) :
    (ps.decayBadness cfg now).badness.toInt =
      Max.max (ps.badness.toInt-accrued nanosPerSec (forgiven cfg) (now-ps.lastDecay)) 0 := by
  have hlow := ps.badness.le_toInt
  have hhigh := ps.badness.toInt_lt
  have hclipped : clipped cfg.badnessDecayPerSec.toInt.toNat (now-ps.lastDecay) =
      accrued nanosPerSec (forgiven cfg) (now-ps.lastDecay) := clipped_eq (forgiven_lt cfg) _
  unfold decayBadness
  dsimp only
  rw [if_neg hrate, refillAddU64_eq, hclipped]
  dsimp only
  rw [clampI32_toInt, clampI32_toInt]
  generalize accrued nanosPerSec (forgiven cfg) (now-ps.lastDecay) = points
  simp only [i32Max, u64Max]
  omega

/-- A peer whose badness is looked at after each of some gaps. -/
def decayed (ps : PeerState) (cfg : LastResortConfig) (gaps : List Nanos) : PeerState :=
  gaps.foldl (fun ps d => ps.decayBadness cfg (ps.lastDecay+d)) ps

theorem decayed_snoc (ps : PeerState) (cfg : LastResortConfig) (gaps : List Nanos) (d : Nanos) :
    ps.decayed cfg (gaps ++ [d]) =
      (ps.decayed cfg gaps).decayBadness cfg ((ps.decayed cfg gaps).lastDecay+d) := by
  unfold decayed
  rw [List.foldl_append]
  rfl

theorem decayed_idle (hrate : cfg.badnessDecayPerSec ≤ 0) (ps : PeerState) (gaps : List Nanos) :
    (ps.decayed cfg gaps).badness = ps.badness := by
  induction gaps using List.reverseRecOn with
  | nil => rfl
  | append_singleton gaps d ih =>
    rw [decayed_snoc, decayBadness_idle hrate, ih]

theorem decayed_toInt (hrate : ¬cfg.badnessDecayPerSec ≤ 0) (ps : PeerState) (gaps : List Nanos)
    (d : Nanos) : (ps.decayed cfg (gaps ++ [d])).badness.toInt = Max.max (ps.badness.toInt-
      ((gaps ++ [d]).map (accrued nanosPerSec (forgiven cfg))).sum) 0 := by
  induction gaps using List.reverseRecOn generalizing d with
  | nil =>
    rw [decayed_snoc, decayBadness_toInt hrate, Nat.add_sub_cancel_left, List.nil_append,
      List.map_singleton, List.sum_singleton]
    rfl
  | append_singleton gaps e ih =>
    rw [decayed_snoc, decayBadness_toInt hrate, Nat.add_sub_cancel_left, ih e,
      @List.map_append _ _ _ (gaps ++ [e]) [d], List.sum_append, List.map_singleton, List.sum_singleton]
    push_cast
    omega

/-- Looking at a peer more often forgives it less, unless the fractions of the looks make less than
a point or all is forgiven either way. -/
theorem decayed_badness_iff (ps : PeerState) (cfg : LastResortConfig) (gaps : List Nanos)
    (d : Nanos) :
    (ps.decayed cfg (gaps ++ [d])).badness =
        (ps.decayBadness cfg (ps.lastDecay+(gaps ++ [d]).sum)).badness ↔
      cfg.badnessDecayPerSec ≤ 0 ∨
      ((gaps ++ [d]).map fun d => forgiven cfg*d%nanosPerSec).sum < nanosPerSec ∨
      ps.badness.toInt ≤ ((gaps ++ [d]).map (accrued nanosPerSec (forgiven cfg))).sum := by
  by_cases hrate : cfg.badnessDecayPerSec ≤ 0
  · rw [decayed_idle hrate, decayBadness_idle hrate]
    exact ⟨fun _ => Or.inl hrate, fun _ => rfl⟩
  · have hpolled := decayed_toInt hrate ps gaps d
    have honce := decayBadness_toInt hrate ps (ps.lastDecay+(gaps ++ [d]).sum)
    have hle := sum_accrued_le (r := forgiven cfg) (by decide : 0 < nanosPerSec) (gaps ++ [d])
    rw [Nat.add_sub_cancel_left] at honce
    rw [← Int32.toInt_inj, hpolled, honce, ← sum_accrued_iff (by decide)]
    generalize ((gaps ++ [d]).map (accrued nanosPerSec (forgiven cfg))).sum = often at hle ⊢
    generalize accrued nanosPerSec (forgiven cfg) (gaps ++ [d]).sum = once at hle ⊢
    clear hpolled honce
    rw [or_iff_right hrate, max_def, max_def]
    split <;> split <;> omega

end PeerState

/-- When polling makes no difference. A bucket of tokens or of bytes that is refilled after each of
some gaps holds what one refill at the end gives it exactly when the gaps split evenly or it is full
either way, and likewise for badness; a peer that keeps to a rate the refill pays for is served
exactly when no product of the refill leaves 64 bits for its gap. -/
theorem refill_polling_iff (tokens : Bucket32) (bytes : Bucket64) (ps : PeerState)
    (cfg : LastResortConfig) (gaps : List Nanos) (last : Nanos) :
    ((tokens.polled (gaps ++ [last])).tokens =
        (tokens.refill (tokens.last+(gaps ++ [last]).sum)).tokens ↔
      ((gaps ++ [last]).map fun d => tokens.refillPerSec*d%nanosPerSec).sum < nanosPerSec ∨
        tokens.FillsAnyway (gaps ++ [last])) ∧
    ((bytes.polled (gaps ++ [last])).tokens =
        (bytes.refill (bytes.last+(gaps ++ [last]).sum)).tokens ↔
      SplitsEvenly bytes.refillPerSec (gaps ++ [last]) ∨ bytes.FillsAnyway (gaps ++ [last])) ∧
    ((ps.decayed cfg (gaps ++ [last])).badness =
        (ps.decayBadness cfg (ps.lastDecay+(gaps ++ [last]).sum)).badness ↔
      cfg.badnessDecayPerSec ≤ 0 ∨
      ((gaps ++ [last]).map fun d => PeerState.forgiven cfg*d%nanosPerSec).sum < nanosPerSec ∨
      ps.badness.toInt ≤
        ((gaps ++ [last]).map (accrued nanosPerSec (PeerState.forgiven cfg))).sum) ∧
    (∀ cost d, cost ≤ tokens.tokens → cost*nanosPerSec ≤ tokens.refillPerSec*d →
      ∀ first rest, (∀ e ∈ rest, d ≤ e) → tokens.servesAll cost (first :: rest) = true) ∧
    ∀ cost d, cost ≤ bytes.tokens → cost*nanosPerSec ≤ bytes.refillPerSec*d →
      ((∀ first rest, (∀ e ∈ rest, d ≤ e) → bytes.servesAll cost (first :: rest) = true) ↔
        cost ≤ d/nanosPerSec*bytes.refillPerSec+u64Max/nanosPerSec) := by
  have h32 : u32Max ≤ u64Max := by decide
  refine ⟨?_, Bucket.polled_tokens_iff (Nat.le_refl _) bytes _,
    PeerState.decayed_badness_iff ps cfg gaps last, ?_, ?_⟩
  · rw [Bucket.polled_tokens_iff h32, Bucket.splitsEvenly_iff]
  · intro cost d hheld hrate
    apply (Bucket.servesAll_iff h32 hheld).mpr
    apply (Bucket.le_clipped_iff hrate).mpr
    -- A count of 32 bits is far below what clips a part of a second.
    have hsmall : cost ≤ u32Max := hheld.trans (tokens.tokens_le.trans tokens.cap_le)
    exact hsmall.trans ((by decide : u32Max ≤ u64Max/nanosPerSec).trans (Nat.le_add_left _ _))
  · intro cost d hheld hrate
    rw [Bucket.servesAll_iff (Nat.le_refl _) hheld, Bucket.le_clipped_iff hrate]

theorem refill_polling_iff_seconds :
    let b : Bucket32 := ⟨1, 10, 1, 0, by decide, by decide, by decide⟩
    let gaps := [nanosPerSec] ++ [nanosPerSec/2]
    (b.polled gaps).tokens = (b.refill (b.last+gaps.sum)).tokens ∧
      ∀ first rest, (∀ e ∈ rest, nanosPerSec ≤ e) → b.servesAll 1 (first :: rest) = true := by
  intro b gaps
  have hpolling := refill_polling_iff b (.new 0 0 0) (.new {} 0) {} [nanosPerSec] (nanosPerSec/2)
  exact ⟨hpolling.1.mpr (Or.inl (by decide)),
    hpolling.2.2.2.1 1 nanosPerSec (by decide) (by decide)⟩

/-- One token a second, looked at twice in the second: the token never comes. -/
theorem refill_polling_loses_token :
    let b : Bucket32 := ⟨0, 10, 1, 0, by decide, by decide, by decide⟩
    (b.refill (nanosPerSec/2)).tokens < b.cap ∧
      ((b.refill (nanosPerSec/2)).refill nanosPerSec).tokens = 0 ∧
      (b.refill nanosPerSec).tokens = 1 := by
  decide

end Remzar
