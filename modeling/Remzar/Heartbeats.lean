import Mathlib
import Remzar.Chain
import Remzar.RegistrySpec

/-! Heartbeats: a round of them against the cap on validators, and the join heights they leave. -/
namespace Remzar
open Std Fallible Effects

/-- A heartbeat as it arrives, with what the clock reports then. -/
structure Heartbeat where
  clock : Int64
  walletAddr : String
  tip : UInt64

def Heartbeat.names (b : Heartbeat) (w : String) : Bool :=
  match canonWalletIdChecked b.walletAddr with
  | .ok addr => addr = w
  | .error _ => false

/-- The wallets that some heartbeats name. -/
def heard : List Heartbeat → Finset String
  | [] => ∅
  | b :: beats =>
    match canonWalletIdChecked b.walletAddr with
    | .ok addr => insert addr (heard beats)
    | .error _ => heard beats

theorem names_iff {b : Heartbeat} {w : String} :
    b.names w = true ↔ canonWalletIdChecked b.walletAddr = .ok w := by
  unfold Heartbeat.names
  cases canonWalletIdChecked b.walletAddr with
  | ok addr => simp
  | error e => simp

namespace EphemeralRegistry
variable {r : EphemeralRegistry} {b : Heartbeat} {beats : List Heartbeat} {w addr : String}

/-- A heartbeat that fails is logged and passed over. -/
def hear (r : EphemeralRegistry) (b : Heartbeat) : EphemeralRegistry :=
  storeOf (noteHeartbeatRound b.clock b.walletAddr b.tip r)

theorem hear_accepted (hcap : r.wallets.card < maxValidators)
    (hcanon : canonWalletIdChecked b.walletAddr = .ok addr) :
    r.hear b = { r.enroll addr 0 (nowUnix b.clock) with
      tipSnapshots := r.tipSnapshots.insert addr b.tip } := by
  have hcheck := checkHeartbeat_ok_iff.mpr ⟨hcap, hcanon⟩
  rw [hear, noteHeartbeatRound_eq, guarded_of_ok hcheck]
  rfl

theorem hear_refused (h : ∀ addr, ¬checkHeartbeat b.walletAddr r = .ok addr) : r.hear b = r := by
  rw [hear, noteHeartbeatRound_eq]
  cases hcheck : checkHeartbeat b.walletAddr r with
  | ok addr => exact absurd hcheck (h addr)
  | error e =>
    rw [guarded_of_error hcheck]
    rfl

/-- A full registry takes no heartbeat, not even of a wallet that it has. -/
theorem hear_full (hcap : maxValidators ≤ r.wallets.card) (b : Heartbeat) : r.hear b = r :=
  hear_refused fun _ hcheck => absurd (checkHeartbeat_ok_iff.mp hcheck).1 (Nat.not_lt.mpr hcap)

theorem hear_garbled {e : ErrorDetection} (hcanon : canonWalletIdChecked b.walletAddr = .error e) :
    r.hear b = r :=
  hear_refused fun addr hcheck => by
    have hok := (checkHeartbeat_ok_iff.mp hcheck).2
    rw [hcanon] at hok
    cases hok

theorem hearAll_full (hcap : maxValidators ≤ r.wallets.card) (beats : List Heartbeat) :
    beats.foldl hear r = r := by
  induction beats with
  | nil => rfl
  | cons b beats ih => rw [List.foldl_cons, hear_full hcap b, ih]

/-- While there is room the registry takes in every wallet that is named. -/
theorem hearAll_room (beats : List Heartbeat) (r : EphemeralRegistry) :
    (beats.foldl hear r).wallets.card < maxValidators ↔
      (r.wallets ∪ heard beats).card < maxValidators := by
  induction beats generalizing r with
  | nil =>
    rw [List.foldl_nil, heard, Finset.union_empty]
  | cons b beats ih =>
    rw [List.foldl_cons, heard]
    cases hcanon : canonWalletIdChecked b.walletAddr with
    | error e => rw [hear_garbled hcanon, ih]
    | ok addr =>
      dsimp only
      by_cases hcap : r.wallets.card < maxValidators
      · have hwallets : (r.hear b).wallets = insert addr r.wallets := by
          rw [hear_accepted hcap hcanon]
          rfl
        rw [ih, hwallets, Finset.insert_union, Finset.union_insert]
      · have hfull : maxValidators ≤ r.wallets.card := Nat.not_lt.mp hcap
        have hunion : maxValidators ≤ (r.wallets ∪ insert addr (heard beats)).card :=
          hfull.trans (Finset.card_le_card Finset.subset_union_left)
        rw [hear_full hfull, hearAll_full hfull]
        exact iff_of_false hcap (Nat.not_lt.mpr hunion)

/-- Only a heartbeat that names the wallet marks it as heard. -/
theorem hearAll_unseen (hbeats : ∀ b ∈ beats, b.names w = false) (r : EphemeralRegistry)
    (hunseen : w ∉ r.heartbeatRoundSeen) : w ∉ (beats.foldl hear r).heartbeatRoundSeen := by
  induction beats generalizing r with
  | nil => exact hunseen
  | cons b beats ih =>
    apply ih fun x hx => hbeats x (List.mem_cons_of_mem b hx)
    by_cases hcap : r.wallets.card < maxValidators
    · cases hcanon : canonWalletIdChecked b.walletAddr with
      | error e =>
        rw [hear_garbled hcanon]
        exact hunseen
      | ok addr =>
        have hne : w ≠ addr := by
          rintro rfl
          have hname := names_iff.mpr hcanon
          rw [hbeats b List.mem_cons_self] at hname
          cases hname
        rw [hear_accepted hcap hcanon]
        exact fun hmem => (Finset.mem_insert.mp hmem).elim hne hunseen
    · rw [hear_full (Nat.not_lt.mp hcap)]
      exact hunseen

/-! ### A round -/

/-- A round of heartbeats, from its beginning to its end. -/
def heartbeatRound (beats : List Heartbeat) (clock : Int64) (maxInactive bootGrace : Nanos)
    (r : EphemeralRegistry) : EphemeralRegistry :=
  ((beats.foldl hear r.beginHeartbeatRound).evictInactiveValidators clock maxInactive
    bootGrace).finalizeHeartbeatRound

/-- A wallet that has been heard in the round, recently enough, and joined as before. -/
structure Alive (now : UInt64) (maxInactive : Nanos) (w : String) (join : Option UInt64)
    (r : EphemeralRegistry) : Prop where
  registered : w ∈ r.wallets
  seen : w ∈ r.heartbeatRoundSeen
  recent : ∃ t, r.lastSeenAt[w]? = some t ∧ elapsed now t ≤ maxInactive
  join : r.joinHeights[w]? = join

variable {now : UInt64} {maxInactive bootGrace : Nanos} {join : Option UInt64}

theorem compare_ne {a b : String} (h : a ≠ b) : ¬compare a b = .eq :=
  fun hc => h (LawfulEqCmp.eq_of_compare hc)

/-- A first height is kept, so a heartbeat does not change the height of a wallet that is there. -/
theorem insertIfNew_known {m : ExtTreeMap String UInt64} {k : String} (h : w ∈ m) (v : UInt64) :
    (m.insertIfNew k v)[w]? = m[w]? := by
  rw [ExtTreeMap.getElem?_insertIfNew, if_neg]
  rintro ⟨hk, hnew⟩
  rw [LawfulEqCmp.eq_of_compare hk] at hnew
  exact hnew h

theorem hear_join (hw : w ∈ r.joinHeights) (b : Heartbeat) :
    (r.hear b).joinHeights[w]? = r.joinHeights[w]? := by
  by_cases hcap : r.wallets.card < maxValidators
  · cases hcanon : canonWalletIdChecked b.walletAddr with
    | error e => rw [hear_garbled hcanon]
    | ok addr =>
      rw [hear_accepted hcap hcanon]
      exact insertIfNew_known hw 0
  · rw [hear_full (Nat.not_lt.mp hcap)]

theorem hearAll_join (hw : w ∈ r.joinHeights) (beats : List Heartbeat) :
    (beats.foldl hear r).joinHeights[w]? = r.joinHeights[w]? := by
  induction beats generalizing r with
  | nil => rfl
  | cons b beats ih =>
    have hnext := hear_join hw b
    have hw' : w ∈ (r.hear b).joinHeights := by
      rw [ExtTreeMap.mem_iff_isSome_getElem?, hnext]
      exact ExtTreeMap.mem_iff_isSome_getElem?.mp hw
    exact (ih hw').trans hnext

theorem Alive.hear (h : r.Alive now maxInactive w join) (hjoin : w ∈ r.joinHeights)
    (hclock : b.names w = true → elapsed now (nowUnix b.clock) ≤ maxInactive) :
    (r.hear b).Alive now maxInactive w join ∧ w ∈ (r.hear b).joinHeights := by
  by_cases hcap : r.wallets.card < maxValidators
  · cases hcanon : canonWalletIdChecked b.walletAddr with
    | error e =>
      rw [hear_garbled hcanon]
      exact ⟨h, hjoin⟩
    | ok addr =>
      rw [hear_accepted hcap hcanon]
      refine ⟨⟨Finset.mem_insert_of_mem h.registered, Finset.mem_insert_of_mem h.seen, ?_,
        (insertIfNew_known hjoin 0).trans h.join⟩, mem_insertIfNew_iff.mpr (.inr hjoin)⟩
      change ∃ t, (r.lastSeenAt.insert addr (nowUnix b.clock))[w]? = some t ∧ _
      rw [ExtTreeMap.getElem?_insert]
      split
      · rename_i heq
        obtain rfl := LawfulEqCmp.eq_of_compare heq
        exact ⟨_, rfl, hclock (names_iff.mpr hcanon)⟩
      · exact h.recent
  · rw [hear_full (Nat.not_lt.mp hcap)]
    exact ⟨h, hjoin⟩

theorem Alive.hearAll (h : r.Alive now maxInactive w join) (hjoin : w ∈ r.joinHeights)
    (hclock : ∀ b ∈ beats, b.names w = true → elapsed now (nowUnix b.clock) ≤ maxInactive) :
    (beats.foldl EphemeralRegistry.hear r).Alive now maxInactive w join := by
  induction beats generalizing r with
  | nil => exact h
  | cons b beats ih =>
    obtain ⟨hnext, hjoin'⟩ := h.hear hjoin (hclock b List.mem_cons_self)
    exact ih hnext hjoin' fun x hx => hclock x (List.mem_cons_of_mem b hx)

theorem Alive.remove (h : r.Alive now maxInactive w join) (hne : addr ≠ w) :
    (r.remove addr).Alive now maxInactive w join where
  registered := Finset.mem_erase.mpr ⟨hne.symm, h.registered⟩
  seen := Finset.mem_erase.mpr ⟨hne.symm, h.seen⟩
  recent := by
    change ∃ t, (r.lastSeenAt.erase addr)[w]? = some t ∧ _
    rw [ExtTreeMap.getElem?_erase, if_neg (compare_ne hne)]
    exact h.recent
  join := by
    change (r.joinHeights.erase addr)[w]? = _
    rw [ExtTreeMap.getElem?_erase, if_neg (compare_ne hne)]
    exact h.join

theorem Alive.removeAll (h : r.Alive now maxInactive w join) {gone : List String}
    (hgone : ∀ addr ∈ gone, addr ≠ w) :
    (gone.foldl EphemeralRegistry.remove r).Alive now maxInactive w join := by
  induction gone generalizing r with
  | nil => exact h
  | cons addr gone ih =>
    exact ih (h.remove (hgone addr List.mem_cons_self))
      fun x hx => hgone x (List.mem_cons_of_mem addr hx)

/-- A wallet that was heard recently is not among those evicted. -/
theorem Alive.evict {clock : Int64} (h : r.Alive (nowUnix clock) maxInactive w join) :
    (r.evictInactiveValidators clock maxInactive bootGrace).Alive (nowUnix clock) maxInactive w
      join := by
  obtain ⟨t, hlast, hrecent⟩ := h.recent
  have hactive : r.isInactive (nowUnix clock) maxInactive bootGrace w = false := by
    unfold isInactive
    rw [hlast]
    dsimp only [Option.getD_some]
    split
    · rfl
    · exact decide_eq_false (Nat.not_lt.mpr hrecent)
  apply h.removeAll
  rintro addr haddr rfl
  rw [List.mem_filter, hactive] at haddr
  exact Bool.false_ne_true haddr.2

theorem Alive.finalize (h : r.Alive now maxInactive w join) :
    w ∈ r.finalizeHeartbeatRound.wallets ∧ r.finalizeHeartbeatRound.joinHeights[w]? = join := by
  have hseen : r.heartbeatRoundSeen ≠ ∅ := Finset.ne_empty_of_mem h.seen
  have hwallet : w ∈ r.wallets ∩ r.heartbeatRoundSeen :=
    Finset.mem_inter.mpr ⟨h.registered, h.seen⟩
  unfold finalizeHeartbeatRound
  rw [if_neg hseen]
  refine ⟨hwallet, ?_⟩
  dsimp only
  rw [ExtTreeMap.getElem?_filter', h.join]
  cases join with
  | none => rfl
  | some j => exact Option.filter_eq_some_iff.mpr ⟨rfl, decide_eq_true hwallet⟩

/-- A wallet that was not heard in the round is gone at its end. -/
theorem finalize_unseen (hunseen : w ∉ r.heartbeatRoundSeen) :
    w ∉ r.finalizeHeartbeatRound.wallets := by
  unfold finalizeHeartbeatRound
  split
  · exact Finset.notMem_empty w
  · exact fun hw => hunseen (Finset.mem_inter.mp hw).2

theorem removeAll_unseen (gone : List String) (r : EphemeralRegistry)
    (hunseen : w ∉ r.heartbeatRoundSeen) :
    w ∉ (gone.foldl EphemeralRegistry.remove r).heartbeatRoundSeen := by
  induction gone generalizing r with
  | nil => exact hunseen
  | cons addr gone ih => exact ih (r.remove addr) fun hw => hunseen (Finset.mem_of_mem_erase hw)

/-- A round keeps a registered wallet that is heard exactly when its first heartbeat finds room. -/
theorem heartbeatRound_iff (clock : Int64) (maxInactive bootGrace : Nanos) (h : r.Sound)
    (hw : w ∈ r.wallets) {before after : List Heartbeat} (hbefore : ∀ x ∈ before, x.names w = false)
    (hb : b.names w = true)
    (hclock : ∀ x ∈ b :: after, x.names w = true →
      elapsed (nowUnix clock) (nowUnix x.clock) ≤ maxInactive) :
    (w ∈ (r.heartbeatRound (before ++ b :: after) clock maxInactive bootGrace).wallets ∧
      (r.heartbeatRound (before ++ b :: after) clock maxInactive bootGrace).joinHeights[w]? =
        r.joinHeights[w]?) ↔ (r.wallets ∪ heard before).card < maxValidators := by
  have hroom := hearAll_room before r.beginHeartbeatRound
  have hunseen := hearAll_unseen hbefore r.beginHeartbeatRound (Finset.notMem_empty w)
  have hjoin : w ∈ r.beginHeartbeatRound.joinHeights := (h.joinHeights w).mpr hw
  have hkept := hearAll_join hjoin before
  have hcanon := names_iff.mp hb
  unfold heartbeatRound
  rw [List.foldl_append, List.foldl_cons]
  change _ ↔ (r.beginHeartbeatRound.wallets ∪ heard before).card < maxValidators
  rw [← hroom]
  generalize before.foldl EphemeralRegistry.hear r.beginHeartbeatRound = r₁ at *
  constructor
  · intro hsurvives
    by_contra hfull
    have hcap := Nat.not_lt.mp hfull
    rw [hear_full hcap, hearAll_full hcap] at hsurvives
    exact finalize_unseen (removeAll_unseen _ r₁ hunseen) hsurvives.1
  · intro hcap
    have hknown : w ∈ r₁.joinHeights := by
      rw [ExtTreeMap.mem_iff_isSome_getElem?, hkept]
      exact ExtTreeMap.mem_iff_isSome_getElem?.mp hjoin
    have halive : (r₁.hear b).Alive (nowUnix clock) maxInactive w r.joinHeights[w]? := by
      refine ⟨?_, ?_, ?_, (hear_join hknown b).trans hkept⟩
      · rw [hear_accepted hcap hcanon]
        exact Finset.mem_insert_self _ _
      · rw [hear_accepted hcap hcanon]
        exact Finset.mem_insert_self _ _
      · rw [hear_accepted hcap hcanon]
        exact ⟨_, ExtTreeMap.getElem?_insert_self, hclock b List.mem_cons_self hb⟩
    have hknown' : w ∈ (r₁.hear b).joinHeights := by
      rw [ExtTreeMap.mem_iff_isSome_getElem?, hear_join hknown b]
      exact ExtTreeMap.mem_iff_isSome_getElem?.mp hknown
    have hend := halive.hearAll hknown' fun x hx => hclock x (List.mem_cons_of_mem b hx)
    exact hend.evict.finalize

/-- The first heartbeat of a wallet splits a round. -/
theorem exists_first {w : String} (h : ∃ b ∈ beats, b.names w = true) :
    ∃ b after, beats = beats.takeWhile (fun x => !x.names w) ++ b :: after ∧ b.names w = true := by
  induction beats with
  | nil =>
    obtain ⟨b, hb, -⟩ := h
    cases hb
  | cons x beats ih =>
    cases hx : x.names w with
    | true => exact ⟨x, beats, by rw [List.takeWhile_cons_of_neg (by simp [hx])]; rfl, hx⟩
    | false =>
      obtain ⟨b, hb, hname⟩ := h
      have hrest : ∃ b ∈ beats, b.names w = true := by
        rcases List.mem_cons.mp hb with rfl | hb
        · rw [hx] at hname
          cases hname
        · exact ⟨b, hb, hname⟩
      obtain ⟨b, after, heq, hname⟩ := ih hrest
      refine ⟨b, after, ?_, hname⟩
      rw [List.takeWhile_cons_of_pos (by simp [hx]), List.cons_append, ← heq]

end EphemeralRegistry

/-- A registered wallet that sends heartbeats outlives the round, with its join height, exactly when
its first heartbeat arrives while the wallets registered before and those heard by then are fewer
than the cap. -/
theorem heartbeat_survives_iff [Blake3] (calls : List RegistryCall) {w : String}
    (hw : w ∈ (calls.foldl EphemeralRegistry.step .new).wallets) (beats : List Heartbeat)
    (hbeat : ∃ b ∈ beats, b.names w = true) (clock : Int64) (maxInactive bootGrace : Nanos)
    (hclock : ∀ b ∈ beats, b.names w = true →
      elapsed (nowUnix clock) (nowUnix b.clock) ≤ maxInactive) :
    let r := calls.foldl EphemeralRegistry.step .new
    let r' := r.heartbeatRound beats clock maxInactive bootGrace
    (w ∈ r'.wallets ∧ r'.joinHeights[w]? = r.joinHeights[w]?) ↔
      (r.wallets ∪ heard (beats.takeWhile fun b => !b.names w)).card < maxValidators := by
  intro r r'
  have hsound : r.Sound := EphemeralRegistry.Sound.new.run calls
  obtain ⟨b, after, hsplit, hb⟩ := EphemeralRegistry.exists_first hbeat
  have hbefore : ∀ x ∈ beats.takeWhile (fun b => !b.names w), x.names w = false := by
    intro x hx
    have hname := List.mem_takeWhile_imp hx
    simpa using hname
  have hclock' : ∀ x ∈ b :: after, x.names w = true →
      elapsed (nowUnix clock) (nowUnix x.clock) ≤ maxInactive := by
    intro x hx
    apply hclock
    rw [hsplit]
    exact List.mem_append_right _ hx
  have hround := EphemeralRegistry.heartbeatRound_iff clock maxInactive bootGrace hsound hw hbefore
    hb hclock'
  rw [← hsplit] at hround
  exact hround

namespace Sample

def beat : Heartbeat := ⟨1700000100, miner, 7⟩

end Sample

theorem heartbeat_survives_iff_alone :
    let r := [RegistryCall.registerWalletStrict 1700000000 Sample.miner 5].foldl
      (@EphemeralRegistry.step Blake3.reference) .new
    let r' := r.heartbeatRound [Sample.beat] 1700000130 (30*nanosPerSec) 0
    Sample.miner ∈ r'.wallets ∧ r'.joinHeights[Sample.miner]? = r.joinHeights[Sample.miner]? :=
  (@heartbeat_survives_iff Blake3.reference [.registerWalletStrict 1700000000 Sample.miner 5]
    Sample.miner (by decide +kernel) [Sample.beat]
    ⟨Sample.beat, List.mem_singleton_self _, by decide +kernel⟩ 1700000130 (30*nanosPerSec) 0
    (by decide +kernel)).mpr (by decide +kernel)

/-! ### A full registry -/

theorem hexDigits_injective : ∀ a b : List UInt8, (Blake3.toHex a).toList = (Blake3.toHex b).toList →
    a.length = b.length → a = b := by
  have hdigit : ∀ m n : Fin 16, Blake3.hexDigit m = Blake3.hexDigit n → m = n := by decide
  intro a
  induction a with
  | nil =>
    intro b _ hlength
    exact (List.eq_nil_of_length_eq_zero hlength.symm).symm
  | cons x a ih =>
    intro b h hlength
    cases b with
    | nil => cases hlength
    | cons y b =>
      simp only [Blake3.toHex, String.toList_ofList, List.flatMap_cons, List.cons_append,
        List.nil_append] at h
      injection h with hhigh h
      injection h with hlow h
      have hx := x.toNat_lt
      have hy := y.toNat_lt
      have hhigh' := hdigit ⟨x.toNat/16, by omega⟩ ⟨y.toNat/16, by omega⟩ hhigh
      have hlow' := hdigit ⟨x.toNat%16, by omega⟩ ⟨y.toNat%16, by omega⟩ hlow
      have hbyte : x = y := by
        have hdiv : x.toNat/16 = y.toNat/16 := congrArg Fin.val hhigh'
        have hmod : x.toNat%16 = y.toNat%16 := congrArg Fin.val hlow'
        apply UInt8.toNat_inj.mp
        omega
      rw [hbyte, ih b (by rw [Blake3.toHex, Blake3.toHex, String.toList_ofList,
        String.toList_ofList, h]) (Nat.succ.inj hlength)]

namespace Sample

def walletBytes (i : ℕ) : List UInt8 := List.replicate 62 0 ++ [.ofNat (i/256), .ofNat (i%256)]

/-- Numbered wallets. -/
def numbered (i : ℕ) : String := String.ofList ('r' :: (Blake3.toHex (walletBytes i)).toList)

def registrations (n : ℕ) : List RegistryCall :=
  (List.range n).map fun i => .registerWalletStrict 1700000000 (numbered i) 5

theorem numbered_canonical (i : ℕ) : CanonicalWallet (numbered i) := by
  have hlength : (walletBytes i).length = 64 := by
    rw [walletBytes, List.length_append, List.length_replicate]
    rfl
  exact canonicalWallet_of_digits hlength (String.toList_ofList ..)

theorem numbered_injective {i j : ℕ} (hi : i < 65536) (hj : j < 65536)
    (h : numbered i = numbered j) : i = j := by
  have hlist := congrArg String.toList h
  rw [numbered, numbered, String.toList_ofList, String.toList_ofList] at hlist
  injection hlist with _ hlist
  have hbytes := hexDigits_injective _ _ hlist rfl
  have hlast := List.append_cancel_left hbytes
  injection hlast with hhigh hlast
  injection hlast with hlow _
  have hhigh' := congrArg UInt8.toNat hhigh
  have hlow' := congrArg UInt8.toNat hlow
  rw [UInt8.toNat_ofNat', UInt8.toNat_ofNat'] at hhigh' hlow'
  omega

theorem numbered_card {n : ℕ} (hn : n ≤ 65536) : ((Finset.range n).image numbered).card = n := by
  rw [Finset.card_image_of_injOn, Finset.card_range]
  intro i hi j hj hij
  rw [Finset.coe_range, Set.mem_Iio] at hi hj
  exact numbered_injective (hi.trans_le hn) (hj.trans_le hn) hij

end Sample

namespace EphemeralRegistry

/-- Registrations of new wallets fill the registry up to its cap. -/
theorem registrations_wallets [Blake3] {n : ℕ} (hn : n ≤ maxValidators) :
    ((Sample.registrations n).foldl step new).wallets =
      (Finset.range n).image Sample.numbered := by
  induction n with
  | zero => rfl
  | succ n ih =>
    have hbefore := ih (Nat.le_of_succ_le hn)
    have hsmall : n+1 ≤ 65536 := hn.trans (by decide)
    have hcard := Sample.numbered_card (Nat.le_of_succ_le hsmall)
    have hnew : Sample.numbered n ∉ (Finset.range n).image Sample.numbered := by
      intro hmem
      obtain ⟨i, hi, hin⟩ := Finset.mem_image.mp hmem
      rw [Finset.mem_range] at hi
      exact hi.ne (Sample.numbered_injective (hi.trans hsmall) hsmall hin)
    rw [Sample.registrations, List.range_succ, List.map_append, List.foldl_append, List.map_singleton]
    change (step ((Sample.registrations n).foldl step new) _).wallets = _
    generalize (Sample.registrations n).foldl step new = r at hbefore ⊢
    have hcheck : checkUnregistered (Sample.numbered n) r = .ok (Sample.numbered n) :=
      checkUnregistered_ok_iff.mpr ⟨by rw [hbefore, hcard]; exact hn,
        (Sample.numbered_canonical n).checked, by rw [hbefore]; exact hnew⟩
    change (storeOf ((registerWalletStrict _ _ _ >>= fun _ => pure ()) r)).wallets = _
    rw [bind_run, registerWalletStrict_eq, guarded_of_ok hcheck]
    change insert (Sample.numbered n) r.wallets = _
    rw [hbefore, Finset.range_add_one, Finset.image_insert]

/-- A full registry forgets every validator at the end of a round, heard or not. -/
theorem heartbeatRound_full {r : EphemeralRegistry} (hcap : maxValidators ≤ r.wallets.card) (beats : List Heartbeat)
    (clock : Int64) (maxInactive bootGrace : Nanos) (w : String) :
    w ∉ (r.heartbeatRound beats clock maxInactive bootGrace).wallets := by
  have hbegun : maxValidators ≤ r.beginHeartbeatRound.wallets.card := hcap
  rw [heartbeatRound, hearAll_full hbegun]
  exact finalize_unseen (removeAll_unseen _ _ (Finset.notMem_empty w))

theorem registrations_full [Blake3] {n : ℕ} (hpos : 0 < n) (hn : n ≤ maxValidators) :
    ((Sample.registrations n).foldl step new).wallets.card = n ∧
      Sample.numbered 0 ∈ ((Sample.registrations n).foldl step new).wallets := by
  rw [registrations_wallets hn]
  exact ⟨Sample.numbered_card (hn.trans (by decide)),
    Finset.mem_image_of_mem _ (Finset.mem_range.mpr hpos)⟩

end EphemeralRegistry

/-- With as many validators as the cap allows no heartbeat counts, and the round forgets them all. -/
theorem heartbeat_lost_when_full :
    ∃ (calls : List RegistryCall) (w : String),
      (calls.foldl (@EphemeralRegistry.step Blake3.reference) .new).wallets.card = maxValidators ∧
      w ∈ (calls.foldl (@EphemeralRegistry.step Blake3.reference) .new).wallets ∧
      w ∉ ((calls.foldl (@EphemeralRegistry.step Blake3.reference) .new).heartbeatRound
        [⟨1700000100, w, 7⟩] 1700000130 (30*nanosPerSec) 0).wallets := by
  obtain ⟨n, hn⟩ : ∃ n, n = maxValidators := ⟨_, rfl⟩
  have hpos : 0 < n := by
    rw [hn]
    decide
  obtain ⟨hcard, hmem⟩ := @EphemeralRegistry.registrations_full Blake3.reference n hpos hn.le
  have hcap : maxValidators ≤ ((Sample.registrations n).foldl
      (@EphemeralRegistry.step Blake3.reference) .new).wallets.card := by
    rw [hcard, hn]
  exact ⟨Sample.registrations n, Sample.numbered 0, hcard.trans hn, hmem,
    EphemeralRegistry.heartbeatRound_full hcap _ _ _ _ _⟩

end Remzar
