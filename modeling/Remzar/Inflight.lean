import Mathlib
import Remzar.Lib.Ledger
import Remzar.Hydration

/-! Requests in flight: the limiter that counts them for each peer and in all, and the permits
its callers hold and give back. -/
namespace Remzar
open Std

def u32Max : ℕ := 2^32-1

def checkedSucc32 (n : ℕ) : Option ℕ := if n < u32Max then some (n+1) else none

structure InflightLimiter where
  maxPerPeer : UInt32
  maxGlobal : UInt32
  perPeer : ExtTreeMap PeerId ℕ
  global : ℕ

inductive InflightDrop where
  | peerCap
  | globalCap
  deriving DecidableEq, Repr

-- A permit remembers its peer, which is all that giving it back needs.
inductive InflightDecision where
  | allow (permit : PeerId)
  | drop (reason : InflightDrop)
  deriving DecidableEq, Repr

namespace InflightLimiter

def new (maxPerPeer maxGlobal : UInt32) : InflightLimiter := ⟨maxPerPeer, maxGlobal, ∅, 0⟩

def tryAcquire (peer : PeerId) (l : InflightLimiter) : InflightDecision × InflightLimiter :=
  if l.global = u32Max then (.drop .globalCap, l)
  else
    let curPeer := l.perPeer[peer]?.getD 0
    if l.maxPerPeer.toNat ≤ curPeer then (.drop .peerCap, l)
    else if l.maxGlobal.toNat ≤ l.global then (.drop .globalCap, l)
    else if curPeer = u32Max then (.drop .peerCap, l)
    else
      match checkedSucc32 curPeer with
      | none => (.drop .peerCap, l)
      | some nextPeer =>
        let l := { l with perPeer := l.perPeer.insert peer nextPeer }
        match checkedSucc32 l.global with
        | none => (.drop .globalCap, l)
        | some nextGlobal => (.allow peer, { l with global := nextGlobal })

/-- What dropping a permit does. -/
def release (permit : PeerId) (l : InflightLimiter) : InflightLimiter :=
  { l with
    perPeer :=
      match l.perPeer[permit]? with
      | none => l.perPeer
      | some v => if v-1 = 0 then l.perPeer.erase permit else l.perPeer.insert permit (v-1)
    global := l.global-1 }

def total (l : InflightLimiter) : ℕ := (l.perPeer.toList.map Prod.snd).sum

theorem tryAcquire_caps (l : InflightLimiter) (peer : PeerId) :
    (l.tryAcquire peer).2.maxPerPeer = l.maxPerPeer ∧
      (l.tryAcquire peer).2.maxGlobal = l.maxGlobal := by
  unfold tryAcquire
  dsimp only
  split_ifs with hglobal hpeer hall hmax
  all_goals try exact ⟨rfl, rfl⟩
  cases checkedSucc32 (l.perPeer[peer]?.getD 0) with
  | none => exact ⟨rfl, rfl⟩
  | some nextPeer =>
    dsimp only
    cases checkedSucc32 l.global with
    | none => exact ⟨rfl, rfl⟩
    | some nextGlobal => exact ⟨rfl, rfl⟩

end InflightLimiter

/-! ### The permits of all clones -/

/-- The counters that all clones of a limiter share, and the permits that are out. -/
structure Permits where
  limiter : InflightLimiter
  live : List PeerId

inductive PermitEvent where
  | acquire (peer : PeerId)
  -- The permit at a place of the list is dropped.
  | drop (place : ℕ)

namespace Permits

def start (maxPerPeer maxGlobal : UInt32) : Permits := ⟨.new maxPerPeer maxGlobal, []⟩

def step (s : Permits) : PermitEvent → Permits
  | .acquire peer =>
    match s.limiter.tryAcquire peer with
    | (.allow permit, limiter) => ⟨limiter, permit :: s.live⟩
    | (.drop _, limiter) => ⟨limiter, s.live⟩
  | .drop place =>
    match s.live[place]? with
    | none => s
    | some permit => ⟨s.limiter.release permit, s.live.eraseIdx place⟩

end Permits

/-- The counters are the numbers of the permits that are out, and within the caps. -/
structure Permits.Exact (s : Permits) : Prop where
  global : s.limiter.global = s.live.length
  perPeer : ∀ p, s.limiter.perPeer[p]? = if p ∈ s.live then some (s.live.count p) else none
  total : s.limiter.total = s.limiter.global
  globalCap : s.live.length ≤ s.limiter.maxGlobal.toNat
  peerCap : ∀ p, s.live.count p ≤ s.limiter.maxPerPeer.toNat

/-! ### The sum of the counters -/

section Total
variable {m : ExtTreeMap PeerId ℕ} {p : PeerId} {v : ℕ}

theorem sum_erase (m : ExtTreeMap PeerId ℕ) (p : PeerId) :
    (m.toList.map Prod.snd).sum = m[p]?.getD 0 + ((m.erase p).toList.map Prod.snd).sum := by
  cases h : m[p]? with
  | some v =>
    have hperm := (Ledger.toList_perm_of_getElem? m p v h).map Prod.snd
    rw [hperm.sum_eq, List.map_cons, List.sum_cons]
    rfl
  | none =>
    have hsame : m.erase p = m := by
      apply ExtTreeMap.ext_getElem?
      intro a
      rw [ExtTreeMap.getElem?_erase]
      split
      · rename_i hpa
        rw [← LawfulEqCmp.eq_of_compare hpa, h]
      · rfl
    rw [hsame]
    simp

theorem sum_insert (m : ExtTreeMap PeerId ℕ) (p : PeerId) (v : ℕ) :
    ((m.insert p v).toList.map Prod.snd).sum + m[p]?.getD 0 = (m.toList.map Prod.snd).sum + v := by
  have hnew := sum_erase (m.insert p v) p
  have hold := sum_erase m p
  rw [Ledger.erase_insert_self, ExtTreeMap.getElem?_insert_self] at hnew
  simp only [Option.getD_some] at hnew
  omega

end Total

namespace Permits
variable {s : Permits} {p : PeerId}

/-! ### One step -/

theorem Exact.curPeer (h : s.Exact) (p : PeerId) :
    s.limiter.perPeer[p]?.getD 0 = s.live.count p := by
  rw [h.perPeer]
  by_cases hp : p ∈ s.live
  · rw [if_pos hp]
    rfl
  · rw [if_neg hp, List.count_eq_zero.mpr hp]
    rfl

/-- With room under both caps a permit is handed out, and both counters go up by one. -/
theorem Exact.tryAcquire_allow (h : s.Exact) (hglobal : s.live.length < s.limiter.maxGlobal.toNat)
    (hpeer : s.live.count p < s.limiter.maxPerPeer.toNat) :
    s.limiter.tryAcquire p = (.allow p,
      { s.limiter with
        perPeer := s.limiter.perPeer.insert p (s.live.count p+1)
        global := s.live.length+1 }) := by
  have hmaxGlobal := s.limiter.maxGlobal.toNat_lt
  have hmaxPeer := s.limiter.maxPerPeer.toNat_lt
  have hnotFull : ¬s.live.length = u32Max := by
    unfold u32Max
    omega
  have hnotPeerFull : ¬s.live.count p = u32Max := by
    unfold u32Max
    omega
  have hnextGlobal : checkedSucc32 s.live.length = some (s.live.length+1) := by
    unfold checkedSucc32 u32Max
    apply if_pos
    omega
  have hnextPeer : checkedSucc32 (s.live.count p) = some (s.live.count p+1) := by
    unfold checkedSucc32 u32Max
    apply if_pos
    omega
  simp only [InflightLimiter.tryAcquire, h.global, h.curPeer p, hnotFull, hnotPeerFull, if_false,
    if_neg (Nat.not_le.mpr hglobal), if_neg (Nat.not_le.mpr hpeer), hnextPeer, hnextGlobal]

/-- Without it nothing changes. -/
theorem Exact.tryAcquire_drop (h : s.Exact) (hfull : ¬(s.live.length < s.limiter.maxGlobal.toNat ∧
      s.live.count p < s.limiter.maxPerPeer.toNat)) :
    ∃ reason, s.limiter.tryAcquire p = (.drop reason, s.limiter) := by
  unfold InflightLimiter.tryAcquire
  rw [h.global, h.curPeer p]
  by_cases hmax : s.live.length = u32Max
  · exact ⟨.globalCap, if_pos hmax⟩
  · rw [if_neg hmax]
    dsimp only
    by_cases hpeer : s.limiter.maxPerPeer.toNat ≤ s.live.count p
    · exact ⟨.peerCap, if_pos hpeer⟩
    · have hglobal : s.limiter.maxGlobal.toNat ≤ s.live.length := by
        by_contra hlt
        apply hfull
        omega
      rw [if_neg hpeer]
      exact ⟨.globalCap, if_pos hglobal⟩

theorem Exact.acquire (h : s.Exact) (p : PeerId) : (s.step (.acquire p)).Exact := by
  by_cases hroom : s.live.length < s.limiter.maxGlobal.toNat ∧
      s.live.count p < s.limiter.maxPerPeer.toNat
  · have hallow := h.tryAcquire_allow hroom.1 hroom.2
    simp only [step, hallow]
    refine ⟨?_, ?_, ?_, ?_, ?_⟩
    · rw [List.length_cons]
    · intro q
      rw [ExtTreeMap.getElem?_insert]
      by_cases hpq : p = q
      · subst hpq
        simp
      · have hcmp : ¬compare p q = .eq := fun hc => hpq (LawfulEqCmp.eq_of_compare hc)
        have hqp : ¬q = p := fun hqp => hpq hqp.symm
        rw [if_neg hcmp, h.perPeer, List.count_cons_of_ne hpq]
        simp only [List.mem_cons, hqp, false_or]
    · have hsum := sum_insert s.limiter.perPeer p (s.live.count p+1)
      have htotal := h.total
      rw [InflightLimiter.total, h.global] at htotal
      rw [h.curPeer p] at hsum
      simp only [InflightLimiter.total]
      omega
    · rw [List.length_cons]
      exact hroom.1
    · intro q
      have hq := h.peerCap q
      by_cases hpq : p = q
      · subst hpq
        rw [List.count_cons_self]
        exact hroom.2
      · rw [List.count_cons_of_ne hpq]
        exact hq
  · obtain ⟨reason, hdrop⟩ := h.tryAcquire_drop hroom
    simp only [step, hdrop]
    exact h

theorem Exact.drop (h : s.Exact) (place : ℕ) : (s.step (.drop place)).Exact := by
  cases hplace : s.live[place]? with
  | none =>
    simp only [step, hplace]
    exact h
  | some permit =>
    obtain ⟨hlt, hget⟩ := List.getElem?_eq_some_iff.mp hplace
    -- The permit and the others are all the permits there were.
    have hperm : (permit :: s.live.eraseIdx place).Perm s.live := by
      rw [← hget]
      exact List.getElem_cons_eraseIdx_perm hlt
    have hlength : (s.live.eraseIdx place).length+1 = s.live.length := hperm.length_eq
    have hcount : ∀ q, (permit :: s.live.eraseIdx place).count q = s.live.count q :=
      fun q => hperm.count_eq q
    have hself : (s.live.eraseIdx place).count permit+1 = s.live.count permit := by
      rw [← hcount, List.count_cons_self]
    have hmem : permit ∈ s.live := List.mem_of_getElem? hplace
    have hread : s.limiter.perPeer[permit]? = some (s.live.count permit) := by
      rw [h.perPeer, if_pos hmem]
    have hpredecessor : s.live.count permit-1 = (s.live.eraseIdx place).count permit := by omega
    have hglobal := h.global
    have htotal := h.total
    simp only [step, hplace, InflightLimiter.release, hread, hpredecessor]
    refine ⟨?_, ?_, ?_, ?_, ?_⟩
    · dsimp only
      omega
    · intro q
      by_cases hpq : permit = q
      · subst hpq
        by_cases hlast : (s.live.eraseIdx place).count permit = 0
        · rw [if_pos hlast, ExtTreeMap.getElem?_erase_self, if_neg (List.count_eq_zero.mp hlast)]
        · have hstill : permit ∈ s.live.eraseIdx place :=
            List.count_pos_iff.mp (Nat.pos_of_ne_zero hlast)
          rw [if_neg hlast, ExtTreeMap.getElem?_insert_self, if_pos hstill]
      · have hcmp : ¬compare permit q = .eq := fun hc => hpq (LawfulEqCmp.eq_of_compare hc)
        have hother : (s.live.eraseIdx place).count q = s.live.count q := by
          rw [← hcount, List.count_cons_of_ne hpq]
        have hin : q ∈ s.live.eraseIdx place ↔ q ∈ s.live := by
          rw [← List.count_pos_iff, ← List.count_pos_iff, hother]
        have hsame := h.perPeer q
        dsimp only
        split
        · rw [ExtTreeMap.getElem?_erase, if_neg hcmp, hsame, hother]
          simp only [hin]
        · rw [ExtTreeMap.getElem?_insert, if_neg hcmp, hsame, hother]
          simp only [hin]
    · have herase := sum_erase s.limiter.perPeer permit
      have hinsert := sum_insert s.limiter.perPeer permit ((s.live.eraseIdx place).count permit)
      rw [hread, Option.getD_some] at herase hinsert
      simp only [InflightLimiter.total] at htotal ⊢
      split <;> omega
    · have hcap := h.globalCap
      dsimp only
      omega
    · intro q
      have hq := h.peerCap q
      have hle : (s.live.eraseIdx place).count q ≤ s.live.count q := by
        rw [← hcount]
        exact List.count_le_count_cons
      exact hle.trans hq

theorem start_exact (maxPerPeer maxGlobal : UInt32) : (start maxPerPeer maxGlobal).Exact where
  global := rfl
  perPeer p := by
    have hnone : p ∉ (start maxPerPeer maxGlobal).live := List.not_mem_nil
    rw [if_neg hnone]
    exact ExtTreeMap.getElem?_empty
  total := by
    have hnil : (∅ : ExtTreeMap PeerId ℕ).toList = [] := ExtTreeMap.toList_eq_nil_iff.mpr rfl
    change ((∅ : ExtTreeMap PeerId ℕ).toList.map Prod.snd).sum = 0
    rw [hnil]
    rfl
  globalCap := Nat.zero_le _
  peerCap p := Nat.zero_le _

/-! ### Runs -/

theorem Exact.run (h : s.Exact) (events : List PermitEvent) : (events.foldl step s).Exact := by
  induction events generalizing s with
  | nil => exact h
  | cons event events ih =>
    apply ih
    cases event with
    | acquire p => exact h.acquire p
    | drop place => exact h.drop place

/-- The caps are those the limiter was made with. -/
theorem run_caps (events : List PermitEvent) (s : Permits) :
    (events.foldl step s).limiter.maxPerPeer = s.limiter.maxPerPeer ∧
      (events.foldl step s).limiter.maxGlobal = s.limiter.maxGlobal := by
  induction events generalizing s with
  | nil => exact ⟨rfl, rfl⟩
  | cons event events ih =>
    have hstep : (s.step event).limiter.maxPerPeer = s.limiter.maxPerPeer ∧
        (s.step event).limiter.maxGlobal = s.limiter.maxGlobal := by
      cases event with
      | acquire p =>
        have hcaps := s.limiter.tryAcquire_caps p
        unfold step
        dsimp only
        split
        · rename_i heq
          rw [heq] at hcaps
          exact hcaps
        · rename_i heq
          rw [heq] at hcaps
          exact hcaps
      | drop place =>
        unfold step
        dsimp only
        split
        · exact ⟨rfl, rfl⟩
        · exact ⟨rfl, rfl⟩
    rw [List.foldl_cons]
    exact ⟨(ih _).1.trans hstep.1, (ih _).2.trans hstep.2⟩

end Permits

/-- Whatever is acquired and dropped in whatever order, the counters are exact, the caps hold, and
a peer is given a permit exactly when both caps leave room. -/
theorem inflight_permits_exact (maxPerPeer maxGlobal : UInt32) (events : List PermitEvent) :
    let s := events.foldl Permits.step (.start maxPerPeer maxGlobal)
    s.limiter.global = s.live.length ∧ s.limiter.total = s.limiter.global ∧
      (∀ p, s.limiter.perPeer[p]? = if p ∈ s.live then some (s.live.count p) else none) ∧
      s.live.length ≤ maxGlobal.toNat ∧ (∀ p, s.live.count p ≤ maxPerPeer.toNat) ∧
      ∀ p, (s.limiter.tryAcquire p).1 = .allow p ↔
        s.live.length < maxGlobal.toNat ∧ s.live.count p < maxPerPeer.toNat := by
  intro s
  have hexact : s.Exact := (Permits.start_exact maxPerPeer maxGlobal).run events
  have hcaps := Permits.run_caps events (.start maxPerPeer maxGlobal)
  have hmaxPeer : s.limiter.maxPerPeer = maxPerPeer := hcaps.1
  have hmaxGlobal : s.limiter.maxGlobal = maxGlobal := hcaps.2
  have hglobalCap := hexact.globalCap
  have hpeerCap := hexact.peerCap
  rw [hmaxGlobal] at hglobalCap
  rw [hmaxPeer] at hpeerCap
  refine ⟨hexact.global, hexact.total, hexact.perPeer, hglobalCap, hpeerCap, fun p => ?_⟩
  constructor
  · intro hallow
    by_contra hfull
    rw [← hmaxPeer, ← hmaxGlobal] at hfull
    obtain ⟨reason, hdrop⟩ := hexact.tryAcquire_drop hfull
    rw [hdrop] at hallow
    cases hallow
  · rintro ⟨hglobal, hpeer⟩
    rw [← hmaxPeer] at hpeer
    rw [← hmaxGlobal] at hglobal
    rw [hexact.tryAcquire_allow hglobal hpeer]

end Remzar
