import Mathlib
import Remzar.Lib.Accrual
import Remzar.Lib.Runs
import Remzar.Refill

/-! The budget of an address: what the requests from one address may cost in any interval, over
every run of the guards. -/
namespace Remzar
open Std Accrual

/-! ### Counts over a run -/

/-- The tokens that a call takes for an allowed request from the address. -/
def LastResortCall.allowedCost (x : IpAddr) (g : LastResortGuards) : LastResortCall → ℕ
  | .checkAction req =>
    if req.peerIp = some x ∧ (g.checkAction req).1 = .allow then max req.costTokens.toNat 1 else 0
  | _ => 0

/-- Counts the call if it finds more addresses than are tracked, and forgets them all. -/
def LastResortCall.clearsIps (g : LastResortGuards) : LastResortCall → ℕ
  | .onPeerDisconnected _ _ => 0
  | .permitDropped _ _ => 0
  | _ => if maxTrackedIps < g.ip.size then 1 else 0

/-- The call is made in the interval of length `T` from `t`. -/
def LastResortCall.within (t T : Nanos) (c : LastResortCall) : Prop := t ≤ c.now ∧ c.now ≤ t+T

instance (t T : Nanos) (c : LastResortCall) : Decidable (c.within t T) :=
  inferInstanceAs (Decidable (_ ∧ _))

/-- What the allowed requests from the address cost in the interval. -/
def allowedWithin (x : IpAddr) (t T : Nanos) (g : LastResortGuards) (calls : List LastResortCall) : ℕ :=
  Runs.cost LastResortGuards.step (fun g c => if c.within t T then c.allowedCost x g else 0) g calls

/-- How often the addresses are forgotten in the interval. -/
def clearsWithin (t T : Nanos) (g : LastResortGuards) (calls : List LastResortCall) : ℕ :=
  Runs.cost LastResortGuards.step (fun g c => if c.within t T then c.clearsIps g else 0) g calls

/-! ### The credit of an address -/

namespace LastResortGuards
variable {g : LastResortGuards} {x : IpAddr} {now next : Nanos}

/-- Every bucket of an address has the configured numbers and was filled before `now`. -/
def IpBuckets (g : LastResortGuards) (now : Nanos) : Prop :=
  ∀ (k : List UInt8) (b : Bucket32), g.ip[k]? = some b → b.cap = g.cfg.ipBucketCapacity.toNat ∧
    b.refillPerSec = g.cfg.ipRefillPerSec.toNat ∧ b.last ≤ now

/-- What the address may still cost at `now`, in fractions of tokens; one that is not in the table
would start with a full bucket. -/
def ipCredit (g : LastResortGuards) (x : IpAddr) (now : Nanos) : ℕ :=
  match g.ip[x.octets]? with
  | none => g.cfg.ipBucketCapacity.toNat*nanosPerSec
  | some b => credit nanosPerSec g.cfg.ipBucketCapacity.toNat g.cfg.ipRefillPerSec.toNat b.tokens
      b.last now

theorem ipCredit_le (g : LastResortGuards) (x : IpAddr) (now : Nanos) :
    g.ipCredit x now ≤ g.cfg.ipBucketCapacity.toNat*nanosPerSec := by
  unfold ipCredit
  split
  · exact Nat.le_refl _
  · exact credit_le_cap

theorem ipCredit_later (hip : g.IpBuckets now) (hnext : now ≤ next) :
    g.ipCredit x next ≤ g.ipCredit x now+g.cfg.ipRefillPerSec.toNat*(next-now) := by
  unfold ipCredit
  split
  · exact Nat.le_add_right _ _
  · rename_i b hb
    exact credit_later (hip _ b hb).2.2 hnext

theorem ipCredit_congr {g' : LastResortGuards} (hcfg : g'.cfg = g.cfg)
    (hip : g'.ip[x.octets]? = g.ip[x.octets]?) : g'.ipCredit x now = g.ipCredit x now := by
  unfold ipCredit
  rw [hip, hcfg]

/-- Forgetting the addresses gives each a full bucket. -/
theorem ipCredit_boundMaps (g : LastResortGuards) (x : IpAddr) (now : Nanos) :
    g.boundMaps.ipCredit x now ≤ g.ipCredit x now+
      (if maxTrackedIps < g.ip.size then 1 else 0)*(g.cfg.ipBucketCapacity.toNat*nanosPerSec) := by
  by_cases hsize : maxTrackedIps < g.ip.size
  · rw [if_pos hsize, Nat.one_mul]
    exact (g.boundMaps.ipCredit_le x now).trans (Nat.le_add_left _ _)
  · have hip : g.boundMaps.ip = g.ip := if_neg hsize
    rw [if_neg hsize, Nat.zero_mul, Nat.add_zero]
    have hsame : g.boundMaps.ipCredit x now = g.ipCredit x now := ipCredit_congr rfl (by rw [hip])
    exact hsame.le

theorem IpBuckets.boundMaps (h : g.IpBuckets now) : g.boundMaps.IpBuckets now := by
  by_cases hsize : maxTrackedIps < g.ip.size
  · intro k b hb
    have hempty : g.boundMaps.ip = ∅ := if_pos hsize
    rw [hempty, ExtTreeMap.getElem?_empty] at hb
    cases hb
  · intro k b hb
    have hip : g.boundMaps.ip = g.ip := if_neg hsize
    rw [hip] at hb
    exact h k b hb

theorem IpBuckets.mono (h : g.IpBuckets now) (hnext : now ≤ next) : g.IpBuckets next :=
  fun k b hb => ⟨(h k b hb).1, (h k b hb).2.1, (h k b hb).2.2.trans hnext⟩

theorem IpBuckets.congr {g' : LastResortGuards} (h : g.IpBuckets now) (hcfg : g'.cfg = g.cfg)
    (hip : g'.ip = g.ip) : g'.IpBuckets now := by
  unfold IpBuckets
  rw [hip, hcfg]
  exact h

/-! ### A request and the bucket of its address -/

theorem ipEntry_fixed (h : g.IpBuckets now) (y : IpAddr) :
    (g.ipEntry y now).cap = g.cfg.ipBucketCapacity.toNat ∧
      (g.ipEntry y now).refillPerSec = g.cfg.ipRefillPerSec.toNat := by
  unfold ipEntry
  cases hb : g.ip[y.octets]? with
  | none => exact ⟨rfl, rfl⟩
  | some b => exact ⟨(h _ b hb).1, (h _ b hb).2.1⟩

/-- The credit of an address is that of the bucket a request finds or founds. -/
theorem ipCredit_entry (y : IpAddr) : g.ipCredit y now = credit nanosPerSec
    g.cfg.ipBucketCapacity.toNat g.cfg.ipRefillPerSec.toNat (g.ipEntry y now).tokens
    (g.ipEntry y now).last now := by
  unfold ipCredit ipEntry
  cases g.ip[y.octets]? with
  | none =>
    change _ = credit _ _ _ g.cfg.ipBucketCapacity.toNat now now
    unfold credit
    rw [Nat.sub_self, Nat.mul_zero, Nat.add_zero, Nat.min_self]
  | some b => rfl

/-- Drawing on a bucket: what is taken comes off its credit. -/
theorem tryTake_credit {max : ℕ} (hmax : max ≤ u64Max) (b : Bucket max) (now : Nanos) (cost : ℕ) :
    (b.tryTake now cost).2.cap = b.cap ∧
      (b.tryTake now cost).2.refillPerSec = b.refillPerSec ∧
      (b.tryTake now cost).2.last = now ∧
      credit nanosPerSec b.cap b.refillPerSec (b.tryTake now cost).2.tokens now now+
        (if (b.tryTake now cost).1 = true then cost else 0)*nanosPerSec ≤
      credit nanosPerSec b.cap b.refillPerSec b.tokens b.last now := by
  have htokens := b.refill_tokens hmax now
  have hclipped := clipped_le_accrued b.refillPerSec (now-b.last)
  have hlevel : (b.refill now).tokens ≤
      b.tokens+accrued nanosPerSec b.refillPerSec (now-b.last) := by omega
  have hcap : (b.refill now).tokens ≤ b.cap := by omega
  by_cases hcost : cost ≤ (b.refill now).tokens
  · obtain ⟨b', htake, hb'⟩ : ∃ b', b.tryTake now cost = (true, b') ∧
        (b'.tokens = (b.refill now).tokens-cost ∧ b'.cap = b.cap ∧
          b'.refillPerSec = b.refillPerSec ∧ b'.last = now) :=
      ⟨_, if_pos hcost, rfl, rfl, rfl, rfl⟩
    rw [htake, if_pos rfl]
    refine ⟨hb'.2.1, hb'.2.2.1, hb'.2.2.2, ?_⟩
    rw [hb'.1]
    exact credit_take hlevel hcap hcost
  · have htaken := credit_take hlevel hcap (Nat.zero_le (b.refill now).tokens)
    rw [Nat.sub_zero] at htaken
    rw [Bucket.tryTake_refused hcost, if_neg Bool.false_ne_true]
    exact ⟨rfl, rfl, rfl, htaken⟩

/-- What a call leaves of the credit of an address when it takes `spent` for a request from it. -/
structure Spends (g g' : LastResortGuards) (x : IpAddr) (now : Nanos) (spent : ℕ) : Prop where
  cfg : g'.cfg = g.cfg
  buckets : g'.IpBuckets now
  credit : g'.ipCredit x now+spent*nanosPerSec ≤ g.ipCredit x now

theorem Spends.none {g' : LastResortGuards} (h : g.IpBuckets now) (hcfg : g'.cfg = g.cfg)
    (hip : g'.ip = g.ip) : g.Spends g' x now 0 where
  cfg := hcfg
  buckets := h.congr hcfg hip
  credit := by
    have hsame : g'.ipCredit x now = g.ipCredit x now := ipCredit_congr hcfg (by rw [hip])
    rw [hsame, Nat.zero_mul, Nat.add_zero]

/-- Drawing on the bucket of one address spends of that address alone. -/
theorem Spends.draw (g' : LastResortGuards) (h : g.IpBuckets now) (x y : IpAddr) (cost : ℕ)
    (hcfg : g'.cfg = g.cfg)
    (hip : g'.ip = g.ip.insert y.octets ((g.ipEntry y now).tryTake now cost).2) :
    g.Spends g' x now
      (if y = x ∧ ((g.ipEntry y now).tryTake now cost).1 = true then cost else 0) := by
  obtain ⟨hcap, hrate⟩ := ipEntry_fixed h y
  obtain ⟨hcap', hrate', hlast', hcredit⟩ :=
    tryTake_credit (by decide : u32Max ≤ u64Max) (g.ipEntry y now) now cost
  rw [hcap, hrate, ← ipCredit_entry] at hcredit
  generalize (g.ipEntry y now).tryTake now cost = drawn at *
  obtain ⟨taken, b⟩ := drawn
  refine ⟨hcfg, ?_, ?_⟩
  · intro k b' hb'
    rw [hip, ExtTreeMap.getElem?_insert] at hb'
    split at hb'
    · cases hb'
      rw [hcfg]
      exact ⟨hcap'.trans hcap, hrate'.trans hrate, hlast'.le⟩
    · rw [hcfg]
      exact h k b' hb'
  · by_cases hx : y.octets = x.octets
    · have hget : g'.ip[x.octets]? = some b := by
        rw [hip, ← hx, ExtTreeMap.getElem?_insert_self]
      have hsame : g.ipCredit x now = g.ipCredit y now := by
        unfold ipCredit
        rw [hx]
      have hle : (if y = x ∧ taken = true then cost else 0)*nanosPerSec ≤
          (if taken = true then cost else 0)*nanosPerSec := by
        apply Nat.mul_le_mul_right
        split <;> split <;> simp_all
      rw [ipCredit, hget, hcfg, hsame]
      change b.last = now at hlast'
      dsimp only
      rw [hlast']
      exact (Nat.add_le_add_left hle _).trans hcredit
    · have hne : ¬compare y.octets x.octets = .eq := fun hc => hx (LawfulEqCmp.eq_of_compare hc)
      have hother : y ≠ x := fun hyx => hx (congrArg IpAddr.octets hyx)
      have hsame : g'.ipCredit x now = g.ipCredit x now := by
        apply ipCredit_congr hcfg
        rw [hip, ExtTreeMap.getElem?_insert, if_neg hne]
      rw [if_neg (fun hboth => hother hboth.1), hsame, Nat.zero_mul, Nat.add_zero]

theorem checkIp_spends {g₁ : LastResortGuards} (henable : g₁.cfg.enableIpBucket = true)
    {req : LastResortActionRequest} (h : g₁.IpBuckets req.now) (cost : ℕ) (ps : PeerState) :
    g₁.Spends (g₁.checkIp req cost ps).2 x req.now
      (if req.peerIp = some x ∧ (g₁.checkIp req cost ps).1 = .allow then cost else 0) := by
  unfold checkIp
  cases hy : req.peerIp with
  | none => exact .none h rfl rfl
  | some y =>
    have hdraw := fun g' => Spends.draw g' h x y cost
    simp only [henable, if_true]
    generalize (g₁.ipEntry y req.now).tryTake req.now cost = drawn at hdraw ⊢
    obtain ⟨taken, b⟩ := drawn
    cases taken with
    | true =>
      have hspends := hdraw (({ g₁ with ip := g₁.ip.insert y.octets b }).keep req.peerId ps) rfl rfl
      simpa using hspends
    | false =>
      have hspends := hdraw (({ g₁ with ip := g₁.ip.insert y.octets b }).keep req.peerId
        (ps.addBadness g₁.cfg req.now 2)) rfl rfl
      simpa using hspends

theorem checkAction_spends (henable : g.cfg.enableIpBucket = true) {req : LastResortActionRequest}
    (h : g.IpBuckets req.now) : g.boundMaps.Spends (g.checkAction req).2 x req.now
      ((LastResortCall.checkAction req).allowedCost x g) := by
  have hbound := h.boundMaps
  unfold LastResortCall.allowedCost checkAction
  dsimp only
  split
  · simpa using Spends.none hbound rfl rfl
  · split
    · simpa using Spends.none hbound (by rfl) (by rfl)
    · split
      · simpa using Spends.none hbound (by rfl) (by rfl)
      · split
        · exact checkIp_spends (by exact henable) hbound _ _
        · simpa using Spends.none hbound (by rfl) (by rfl)

theorem tryBeginInflight_spends (h : g.IpBuckets now) (p : PeerId) :
    g.boundMaps.Spends (g.tryBeginInflight now p).2 x now 0 := by
  unfold tryBeginInflight
  dsimp only
  split
  · exact .none h.boundMaps (by rfl) (by rfl)
  · split <;> exact .none h.boundMaps (by rfl) (by rfl)

theorem checkBytes_spends (h : g.IpBuckets now) (p : PeerId) (bytes : UInt64) :
    g.boundMaps.Spends (g.checkBytes now p bytes).2 x now 0 := by
  unfold checkBytes
  dsimp only
  split
  · exact .none h.boundMaps (by rfl) (by rfl)
  · split
    · split <;> exact .none h.boundMaps (by rfl) (by rfl)
    · exact .none h.boundMaps (by rfl) (by rfl)

theorem Spends.unbound {g' : LastResortGuards} {spent : ℕ} (h : g.boundMaps.Spends g' x now spent) :
    g'.ipCredit x now+spent*nanosPerSec ≤ g.ipCredit x now+
      (if maxTrackedIps < g.ip.size then 1 else 0)*(g.cfg.ipBucketCapacity.toNat*nanosPerSec) :=
  h.credit.trans (g.ipCredit_boundMaps x now)

/-- One call: what it takes for the address comes off the credit, which grows only when the
addresses are forgotten. -/
theorem step_credit (henable : g.cfg.enableIpBucket = true) {c : LastResortCall} (h : g.IpBuckets c.now)
    (x : IpAddr) : (g.step c).cfg = g.cfg ∧ (g.step c).IpBuckets c.now ∧
      (g.step c).ipCredit x c.now+c.allowedCost x g*nanosPerSec ≤ g.ipCredit x c.now+
        c.clearsIps g*(g.cfg.ipBucketCapacity.toNat*nanosPerSec) := by
  cases c with
  | checkAction req =>
    have hspends := checkAction_spends (x := x) henable h
    exact ⟨hspends.cfg, hspends.buckets, hspends.unbound⟩
  | tryBeginInflight now p =>
    have hspends := tryBeginInflight_spends (x := x) h p
    exact ⟨hspends.cfg, hspends.buckets, hspends.unbound⟩
  | checkBytes now p bytes =>
    have hspends := checkBytes_spends (x := x) h p bytes
    exact ⟨hspends.cfg, hspends.buckets, hspends.unbound⟩
  | reportMisbehavior now p points =>
    have hspends : g.boundMaps.Spends (g.reportMisbehavior now p points) x now 0 :=
      .none h.boundMaps (by rfl) (by rfl)
    exact ⟨hspends.cfg, hspends.buckets, hspends.unbound⟩
  | onPeerDisconnected now p =>
    have hspends : g.Spends (g.onPeerDisconnected p) x now 0 := .none h rfl rfl
    exact ⟨hspends.cfg, hspends.buckets, hspends.credit.trans (Nat.le_add_right _ _)⟩
  | permitDropped now permit =>
    have hspends : g.Spends { g with inflight := g.inflight.release permit } x now 0 :=
      .none h rfl rfl
    exact ⟨hspends.cfg, hspends.buckets, hspends.credit.trans (Nat.le_add_right _ _)⟩

/-! ### Runs -/

variable {t T : Nanos} {calls : List LastResortCall}

/-- The times only rise: once the interval is over, nothing more is counted. -/
theorem allowedWithin_after {c : LastResortCall}
    (hordered : ((c :: calls).map LastResortCall.now).Pairwise (· ≤ ·)) (hto : ¬c.now ≤ t+T) :
    allowedWithin x t T g (c :: calls) = 0 := by
  rw [List.map_cons, List.pairwise_cons] at hordered
  apply Runs.cost_eq_zero
  intro d hd s
  have hlate : ¬d.within t T := by
    intro hwithin
    rcases List.mem_cons.mp hd with rfl | hmem
    · exact hto hwithin.2
    · exact hto ((hordered.1 _ (List.mem_map_of_mem hmem)).trans hwithin.2)
  rw [if_neg hlate]

/-- From a moment in the interval on: the credit then, the rate for what is left of the interval,
and a full bucket for each time the addresses are forgotten. -/
theorem allowedWithin_inside (calls : List LastResortCall) (henable : g.cfg.enableIpBucket = true)
    (h : g.IpBuckets now) (hfrom : t ≤ now) (hto : now ≤ t+T) (hlater : ∀ c ∈ calls, now ≤ c.now)
    (hordered : (calls.map LastResortCall.now).Pairwise (· ≤ ·)) :
    allowedWithin x t T g calls*nanosPerSec ≤ g.ipCredit x now+
      clearsWithin t T g calls*(g.cfg.ipBucketCapacity.toNat*nanosPerSec)+
      g.cfg.ipRefillPerSec.toNat*(t+T-now) := by
  induction calls generalizing g now with
  | nil =>
    change 0*nanosPerSec ≤ _
    rw [Nat.zero_mul]
    exact Nat.zero_le _
  | cons c calls ih =>
    have hc : now ≤ c.now := hlater c List.mem_cons_self
    rw [List.map_cons, List.pairwise_cons] at hordered
    have hnext : ∀ d ∈ calls, c.now ≤ d.now :=
      fun d hd => hordered.1 _ (List.mem_map_of_mem hd)
    by_cases hin : c.now ≤ t+T
    · have hwithin : c.within t T := ⟨hfrom.trans hc, hin⟩
      obtain ⟨hcfg, hbuckets, hcredit⟩ := step_credit henable (h.mono hc) x
      have hrest := ih (hcfg ▸ henable) hbuckets (hfrom.trans hc) hin hnext hordered.2
      have hgrown := ipCredit_later (x := x) h hc
      have hspan : g.cfg.ipRefillPerSec.toNat*(t+T-now) = g.cfg.ipRefillPerSec.toNat*(c.now-now)+
          g.cfg.ipRefillPerSec.toNat*(t+T-c.now) := by
        rw [← Nat.mul_add, Nat.add_comm (c.now-now), Nat.sub_add_sub_cancel hin hc]
      have hallowed : allowedWithin x t T g (c :: calls) =
          c.allowedCost x g+allowedWithin x t T (g.step c) calls := by
        rw [allowedWithin, Runs.cost, if_pos hwithin]
        rfl
      have hclears : clearsWithin t T g (c :: calls) =
          c.clearsIps g+clearsWithin t T (g.step c) calls := by
        rw [clearsWithin, Runs.cost, if_pos hwithin]
        rfl
      rw [hcfg] at hrest
      rw [hallowed, hclears, Nat.add_mul, Nat.add_mul, hspan]
      generalize g.cfg.ipRefillPerSec.toNat*(c.now-now) = grown at hgrown ⊢
      generalize g.cfg.ipRefillPerSec.toNat*(t+T-c.now) = left at hrest ⊢
      generalize g.cfg.ipBucketCapacity.toNat*nanosPerSec = full at hcredit hrest ⊢
      omega
    · rw [allowedWithin_after (List.pairwise_cons.mpr hordered) hin, Nat.zero_mul]
      exact Nat.zero_le _

/-- From any earlier moment on, the bucket may be full when the interval begins. -/
theorem allowedWithin_le (henable : g.cfg.enableIpBucket = true) (h : g.IpBuckets now)
    (hlater : ∀ c ∈ calls, now ≤ c.now) (hordered : (calls.map LastResortCall.now).Pairwise (· ≤ ·)) :
    allowedWithin x t T g calls*nanosPerSec ≤
      (1+clearsWithin t T g calls)*(g.cfg.ipBucketCapacity.toNat*nanosPerSec)+
      g.cfg.ipRefillPerSec.toNat*T := by
  induction calls generalizing g now with
  | nil =>
    change 0*nanosPerSec ≤ _
    rw [Nat.zero_mul]
    exact Nat.zero_le _
  | cons c calls ih =>
    have hc : now ≤ c.now := hlater c List.mem_cons_self
    by_cases hfrom : t ≤ c.now
    · by_cases hto : c.now ≤ t+T
      · have hinside := allowedWithin_inside (x := x) (c :: calls) henable (h.mono hc) hfrom hto ?_
          hordered
        · have hfull := g.ipCredit_le x c.now
          have hspan : g.cfg.ipRefillPerSec.toNat*(t+T-c.now) ≤ g.cfg.ipRefillPerSec.toNat*T :=
            Nat.mul_le_mul_left _ (Nat.sub_le_iff_le_add'.mpr (Nat.add_le_add_right hfrom _))
          rw [Nat.add_mul, Nat.one_mul]
          exact hinside.trans (Nat.add_le_add (Nat.add_le_add_right hfull _) hspan)
        · intro d hd
          rw [List.map_cons, List.pairwise_cons] at hordered
          rcases List.mem_cons.mp hd with rfl | hmem
          · exact Nat.le_refl _
          · exact hordered.1 _ (List.mem_map_of_mem hmem)
      · rw [allowedWithin_after hordered hto, Nat.zero_mul]
        exact Nat.zero_le _
    · rw [List.map_cons, List.pairwise_cons] at hordered
      have hout : ¬c.within t T := fun hwithin => hfrom hwithin.1
      obtain ⟨hcfg, hbuckets, -⟩ := step_credit henable (h.mono hc) x
      have hrest := ih (hcfg ▸ henable) hbuckets
        (fun d hd => hordered.1 _ (List.mem_map_of_mem hd)) hordered.2
      have hallowed : allowedWithin x t T g (c :: calls) = allowedWithin x t T (g.step c) calls := by
        rw [allowedWithin, Runs.cost, if_neg hout, Nat.zero_add]
        rfl
      have hclears : clearsWithin t T g (c :: calls) = clearsWithin t T (g.step c) calls := by
        rw [clearsWithin, Runs.cost, if_neg hout, Nat.zero_add]
        rfl
      rw [hcfg] at hrest
      rw [hallowed, hclears]
      exact hrest

end LastResortGuards

/-- What the requests from one address cost in any interval is at most one full bucket and the
refill of the interval, and another full bucket for each time the addresses are forgotten in it. -/
theorem address_budget (cfg : LastResortConfig) (henable : cfg.enableIpBucket = true)
    (start : Nanos) (calls : List LastResortCall)
    (hordered : (calls.map LastResortCall.now).Pairwise (· ≤ ·)) (x : IpAddr) (t T : Nanos) :
    allowedWithin x t T (.new cfg start) calls*nanosPerSec ≤
      (1+clearsWithin t T (.new cfg start) calls)*(cfg.ipBucketCapacity.toNat*nanosPerSec)+
      cfg.ipRefillPerSec.toNat*T := by
  have hbuckets : (LastResortGuards.new cfg start).IpBuckets 0 := by
    intro k b hb
    change (∅ : ExtTreeMap (List UInt8) Bucket32)[k]? = some b at hb
    rw [ExtTreeMap.getElem?_empty] at hb
    cases hb
  exact LastResortGuards.allowedWithin_le henable hbuckets (fun c _ => Nat.zero_le _) hordered

namespace Sample

def crowdedHost : IpAddr := .v4 #v[9, 9, 9, 9]

def strangerHost (i : ℕ) : IpAddr := .v4 #v[10, 0, .ofNat (i/256), .ofNat (i%256)]

-- One token for each address, and none to come.
def oneToken : LastResortConfig := { ipBucketCapacity := 1, ipRefillPerSec := 0 }

def visit (p : PeerId) (y : IpAddr) : LastResortActionRequest :=
  ⟨0, p, true, some y, .version, 1, none⟩

/-- A visit from each of `n` other addresses, each under its own identity. -/
def crowd (n : ℕ) : List LastResortCall :=
  (List.range n).map fun i => .checkAction (visit (List.replicate (i+2) 0) (strangerHost i))

end Sample

theorem address_budget_two_visits :
    let calls := [LastResortCall.checkAction (Sample.visit [1] Sample.crowdedHost),
      .checkAction (Sample.visit [2] Sample.crowdedHost)]
    let g := LastResortGuards.new Sample.oneToken 0
    allowedWithin Sample.crowdedHost 0 5 g calls*nanosPerSec ≤
      (1+clearsWithin 0 5 g calls)*(1*nanosPerSec)+0*5 :=
  address_budget Sample.oneToken rfl 0 _ (by decide) Sample.crowdedHost 0 5

/-! ### A crowd that empties the table -/

namespace LastResortGuards
variable {g : LastResortGuards} {p : PeerId} {y : IpAddr}

/-- A visit by a peer and from an address that are both unknown is allowed. -/
theorem visit_allowed (hcfg : g.cfg = Sample.oneToken) (hpeer : g.boundMaps.peer[p]? = none)
    (hip : g.boundMaps.ip[y.octets]? = none) :
    (g.checkAction (Sample.visit p y)).1 = .allow ∧
      (g.checkAction (Sample.visit p y)).2.cfg = Sample.oneToken ∧
      ∃ ps b, (g.checkAction (Sample.visit p y)).2.peer = g.boundMaps.peer.insert p ps ∧
        (g.checkAction (Sample.visit p y)).2.ip = g.boundMaps.ip.insert y.octets b := by
  have hentry : g.boundMaps.entry p 0 = .new Sample.oneToken 0 := by
    rw [entry, hpeer]
    exact congrArg (PeerState.new · 0) hcfg
  have hbound : g.boundMaps.cfg = Sample.oneToken := hcfg
  have hbucket : g.boundMaps.ipEntry y 0 = .new 1 0 0 := by
    rw [ipEntry, hip, hbound]
    rfl
  have hcheck : g.checkAction (Sample.visit p y) = g.boundMaps.checkIp (Sample.visit p y) 1
      { ((PeerState.new Sample.oneToken 0).isCoolingDown Sample.oneToken 0).2 with
        bucket := ((Bucket32.new 600 200 0).tryTake 0 1).2 } := by
    unfold checkAction
    dsimp only [Sample.visit]
    rw [hentry, hbound]
    rfl
  rw [hcheck]
  unfold checkIp
  simp only [Sample.visit, hbound, hbucket]
  exact ⟨rfl, rfl, _, _, rfl, rfl⟩

theorem strangerHost_octets (i : ℕ) :
    (Sample.strangerHost i).octets = [10, 0, .ofNat (i/256), .ofNat (i%256)] := rfl

theorem strangerHost_inj {i j : ℕ} (hi : i < 65536) (hj : j < 65536)
    (h : (Sample.strangerHost i).octets = (Sample.strangerHost j).octets) : i = j := by
  rw [strangerHost_octets, strangerHost_octets] at h
  injection h with _ h
  injection h with _ h
  injection h with hhigh h
  injection h with hlow _
  have hhigh' := congrArg UInt8.toNat hhigh
  have hlow' := congrArg UInt8.toNat hlow
  rw [UInt8.toNat_ofNat', UInt8.toNat_ofNat'] at hhigh' hlow'
  omega

/-- What a crowd leaves in the tables: an entry for each of it. -/
structure Crowded (g : LastResortGuards) (n : ℕ) : Prop where
  cfg : g.cfg = Sample.oneToken
  peers : g.peer.size = n+1
  ips : g.ip.size = n+1
  newPeer : ∀ i, n ≤ i → g.peer[List.replicate (i+2) (0 : UInt8)]? = none
  newIp : ∀ i, n ≤ i → i < 65536 → g.ip[(Sample.strangerHost i).octets]? = none

theorem Crowded.first {ps : PeerState} {b : Bucket32} (hcfg : g.cfg = Sample.oneToken)
    (hpeer : g.peer = (∅ : ExtTreeMap PeerId PeerState).insert [1] ps)
    (hip : g.ip = (∅ : ExtTreeMap (List UInt8) Bucket32).insert Sample.crowdedHost.octets b) :
    g.Crowded 0 := by
  refine ⟨hcfg, by rw [hpeer]; rfl, by rw [hip]; rfl, ?_, ?_⟩
  · intro i _
    have hne : ¬compare ([1] : PeerId) (List.replicate (i+2) 0) = .eq := by
      intro heq
      have hlength := congrArg List.length (LawfulEqCmp.eq_of_compare heq)
      rw [List.length_replicate] at hlength
      cases hlength
    rw [hpeer, ExtTreeMap.getElem?_insert, if_neg hne]
    exact ExtTreeMap.getElem?_empty
  · intro i _ _
    have hne : ¬compare Sample.crowdedHost.octets (Sample.strangerHost i).octets = .eq := by
      intro heq
      have hhead := LawfulEqCmp.eq_of_compare heq
      rw [strangerHost_octets] at hhead
      injection hhead with hhead _
      cases hhead
    rw [hip, ExtTreeMap.getElem?_insert, if_neg hne]
    exact ExtTreeMap.getElem?_empty

theorem Crowded.visit {n : ℕ} (h : g.Crowded n) (hn : n < maxTrackedIps) :
    (g.step (.checkAction (Sample.visit (List.replicate (n+2) 0) (Sample.strangerHost n)))).Crowded
      (n+1) := by
  have hpeers : g.boundMaps.peer = g.peer := if_neg (by rw [h.peers]; exact Nat.not_lt.mpr hn)
  have hips : g.boundMaps.ip = g.ip := if_neg (by rw [h.ips]; exact Nat.not_lt.mpr hn)
  have hlow : n < 65536 := hn.trans (by decide)
  have hnewPeer := h.newPeer n (Nat.le_refl n)
  have hnewIp := h.newIp n (Nat.le_refl n) hlow
  obtain ⟨-, hcfg, ps, b, hpeer, hip⟩ :=
    visit_allowed h.cfg (by rw [hpeers]; exact hnewPeer) (by rw [hips]; exact hnewIp)
  rw [hpeers] at hpeer
  rw [hips] at hip
  change (g.checkAction _).2.Crowded (n+1)
  refine ⟨hcfg, ?_, ?_, ?_, ?_⟩
  · rw [hpeer, ExtTreeMap.size_insert, ExtTreeMap.contains_eq_isSome_getElem?, hnewPeer, h.peers]
    rfl
  · rw [hip, ExtTreeMap.size_insert, ExtTreeMap.contains_eq_isSome_getElem?, hnewIp, h.ips]
    rfl
  · intro i hi
    have hne : ¬compare (List.replicate (n+2) (0 : UInt8)) (List.replicate (i+2) 0) = .eq := by
      intro heq
      have hlength := congrArg List.length (LawfulEqCmp.eq_of_compare heq)
      rw [List.length_replicate, List.length_replicate] at hlength
      omega
    rw [hpeer, ExtTreeMap.getElem?_insert, if_neg hne]
    exact h.newPeer i (by omega)
  · intro i hi hsmall
    have hne : ¬compare (Sample.strangerHost n).octets (Sample.strangerHost i).octets = .eq := by
      intro heq
      have hsame := strangerHost_inj hlow hsmall (LawfulEqCmp.eq_of_compare heq)
      omega
    rw [hip, ExtTreeMap.getElem?_insert, if_neg hne]
    exact h.newIp i (by omega) hsmall

theorem Crowded.crowd (h : g.Crowded 0) {n : ℕ} (hn : n ≤ maxTrackedIps) :
    ((Sample.crowd n).foldl step g).Crowded n := by
  induction n with
  | zero => exact h
  | succ n ih =>
    have hstep := (ih (Nat.le_of_succ_le hn)).visit hn
    unfold Sample.crowd at hstep ⊢
    rw [List.range_succ, List.map_append, List.foldl_append]
    exact hstep

theorem Crowded.cleared (h : g.Crowded maxTrackedIps) :
    g.boundMaps.peer = ∅ ∧ g.boundMaps.ip = ∅ := by
  have hpeers : maxTrackedPeers < g.peer.size := by
    rw [h.peers]
    exact Nat.lt_succ_self _
  have hips : maxTrackedIps < g.ip.size := by
    rw [h.ips]
    exact Nat.lt_succ_self _
  exact ⟨if_pos hpeers, if_pos hips⟩

end LastResortGuards

theorem visit_cost {g : LastResortGuards} {p : PeerId}
    (h : (g.checkAction (Sample.visit p Sample.crowdedHost)).1 = .allow) :
    Runs.cost LastResortGuards.step (fun g c => if c.within 0 0 then c.allowedCost Sample.crowdedHost g else 0)
      g [.checkAction (Sample.visit p Sample.crowdedHost)] = 1 := by
  have hwithin : (LastResortCall.checkAction (Sample.visit p Sample.crowdedHost)).within 0 0 :=
    ⟨Nat.le_refl 0, Nat.le_refl 0⟩
  rw [Runs.cost, if_pos hwithin, LastResortCall.allowedCost, if_pos ⟨rfl, h⟩]
  rfl

/-- One token, and none to come: after a crowd of other addresses the address gets a second one at
the same moment. -/
theorem address_budget_exceeded :
    ∃ (cfg : LastResortConfig) (calls : List LastResortCall) (x : IpAddr),
      cfg.enableIpBucket = true ∧ (∀ c ∈ calls, ∃ req, c = .checkAction req) ∧
      (calls.map LastResortCall.now).Pairwise (· ≤ ·) ∧
      ¬allowedWithin x 0 0 (.new cfg 0) calls*nanosPerSec ≤
        cfg.ipBucketCapacity.toNat*nanosPerSec+cfg.ipRefillPerSec.toNat*0 := by
  let calls := [LastResortCall.checkAction (Sample.visit [1] Sample.crowdedHost)] ++ Sample.crowd maxTrackedIps ++
    [.checkAction (Sample.visit [2] Sample.crowdedHost)]
  have hchecks : ∀ c ∈ calls, ∃ req, c = .checkAction req ∧ c.now = 0 := by
    intro c hc
    rcases List.mem_append.mp hc with hc | hc
    · rcases List.mem_append.mp hc with hc | hc
      · exact ⟨_, List.mem_singleton.mp hc, by rw [List.mem_singleton.mp hc]; rfl⟩
      · obtain ⟨i, -, rfl⟩ := List.mem_map.mp hc
        exact ⟨_, rfl, rfl⟩
    · exact ⟨_, List.mem_singleton.mp hc, by rw [List.mem_singleton.mp hc]; rfl⟩
  refine ⟨Sample.oneToken, calls, Sample.crowdedHost, rfl, ?_, ?_, ?_⟩
  · intro c hc
    obtain ⟨req, hreq, -⟩ := hchecks c hc
    exact ⟨req, hreq⟩
  · refine List.pairwise_of_forall_mem_list ?_
    intro a ha b hb
    obtain ⟨c, hc, rfl⟩ := List.mem_map.mp ha
    obtain ⟨d, hd, rfl⟩ := List.mem_map.mp hb
    obtain ⟨-, -, hcnow⟩ := hchecks c hc
    obtain ⟨-, -, hdnow⟩ := hchecks d hd
    rw [hcnow, hdnow]
  · let g := LastResortGuards.new Sample.oneToken 0
    obtain ⟨hfirst, hcfg, ps, b, hpeer, hip⟩ := LastResortGuards.visit_allowed (g := g) (p := [1])
      (y := Sample.crowdedHost) rfl ExtTreeMap.getElem?_empty ExtTreeMap.getElem?_empty
    let g₁ := (g.checkAction (Sample.visit [1] Sample.crowdedHost)).2
    have hcrowded : g₁.Crowded 0 := .first hcfg hpeer hip
    have hfull := hcrowded.crowd (Nat.le_refl maxTrackedIps)
    obtain ⟨hpeers, hips⟩ := hfull.cleared
    obtain ⟨hagain, -⟩ := LastResortGuards.visit_allowed (p := [2]) (y := Sample.crowdedHost) hfull.cfg
      (by rw [hpeers]; exact ExtTreeMap.getElem?_empty) (by rw [hips]; exact ExtTreeMap.getElem?_empty)
    have htwo : 2 ≤ allowedWithin Sample.crowdedHost 0 0 g calls := by
      rw [allowedWithin, Runs.cost_append, Runs.cost_append, List.foldl_append, visit_cost hfirst]
      change 2 ≤ 1+_+Runs.cost _ _ ((Sample.crowd maxTrackedIps).foldl LastResortGuards.step g₁) _
      rw [visit_cost hagain]
      omega
    have hcap : Sample.oneToken.ipBucketCapacity.toNat = 1 := rfl
    rw [hcap, Nat.mul_zero, Nat.add_zero, Nat.not_le]
    exact Nat.mul_lt_mul_of_pos_right htwo (by decide)

end Remzar
