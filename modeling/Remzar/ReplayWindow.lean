import Mathlib
import Remzar.PqKem
import Remzar.SyncEvents

/-! The filter for offers that come again holds the nonces of the last offers taken, and refuses
just these. The nonce of an offer is a function of one word and the peer it is for. -/
namespace Remzar
open Fallible Effects PqKem

/-! ### Errors that are not replays -/

/-- A check that does not speak of replays. -/
def NeverReplay {α : Type} (x : PqResult α) : Prop := ∀ hex, x ≠ .error (.replayDetected hex)

namespace NeverReplay
variable {α β : Type}

theorem ok (a : α) : NeverReplay (.ok a) := fun _ => nofun

theorem bind {x : PqResult α} {f : α → PqResult β} (hx : NeverReplay x)
    (hf : ∀ a, NeverReplay (f a)) : NeverReplay (x >>= f) := by
  cases x with
  | error e => exact fun hex h => hx hex (congrArg Except.error (Except.error.inj h))
  | ok a => exact hf a

theorem rejectIf {p : Prop} [Decidable p] {e : PqKemError} (h : ∀ hex, e ≠ .replayDetected hex) :
    NeverReplay (rejectIf p e) := by
  unfold Fallible.rejectIf
  split
  · exact fun hex he => h hex (Except.error.inj he)
  · exact .ok ()

theorem nowUnixSecs (clock : Int64) : NeverReplay (nowUnixSecs clock) := by
  unfold PqKem.nowUnixSecs
  cases nowUnixSecsRuntime clock with
  | ok now => exact .ok now
  | error e => exact fun _ => nofun

theorem catchCrypto (op : String) (x : Except CryptoFault α) : NeverReplay (catchCrypto op x) := by
  rcases x with (msg | _) | a
  · exact fun _ => nofun
  · exact fun _ => nofun
  · exact .ok a

theorem copyIntoArray (n : ℕ) (field : String) (src : List UInt8) :
    NeverReplay (copyIntoArray n field src) := by
  unfold PqKem.copyIntoArray
  split
  · exact .ok _
  · exact fun _ => nofun

theorem validateMessageAge (field : String) (created : UInt64) (maxAge : Duration) (clock : Int64) :
    NeverReplay (validateMessageAge field created maxAge clock) := by
  refine .bind (.rejectIf fun _ => PqKemError.noConfusion) fun _ => ?_
  refine .bind (.bind (.rejectIf fun _ => PqKemError.noConfusion) fun _ => .rejectIf fun _ => PqKemError.noConfusion) fun _ => ?_
  refine .bind (.nowUnixSecs clock) fun now => ?_
  dsimp only
  split
  · exact .rejectIf fun _ => PqKemError.noConfusion
  · exact .rejectIf fun _ => PqKemError.noConfusion

theorem validateNonceBytes (field : String) (nonce : List UInt8) :
    NeverReplay (validateNonceBytes field nonce) :=
  .bind (.rejectIf fun _ => PqKemError.noConfusion) fun _ => .rejectIf fun _ => PqKemError.noConfusion

theorem nonceArray (offer : PqKemOffer) : NeverReplay offer.nonceArray :=
  .bind (.validateNonceBytes _ _) fun _ => .copyIntoArray _ _ _

theorem validateOffer (kem : MlKem) (offer : PqKemOffer) (maxAge : Duration) (clock : Int64) :
    NeverReplay (offer.validateUntrusted kem maxAge clock) := by
  refine .bind (.rejectIf fun _ => PqKemError.noConfusion) fun _ => ?_
  refine .bind (.validateMessageAge _ _ _ _) fun _ => ?_
  refine .bind (.validateNonceBytes _ _) fun _ => ?_
  refine .bind (.rejectIf fun _ => PqKemError.noConfusion) fun _ => ?_
  refine .bind (.rejectIf fun _ => PqKemError.noConfusion) fun _ => ?_
  refine .bind (.copyIntoArray _ _ _) fun ek => ?_
  exact .bind (.catchCrypto _ _) fun _ => .ok ()

theorem validateAccept (kem : MlKem) (accept : PqKemAccept) (nonce : PqNonce) (maxAge : Duration)
    (clock : Int64) : NeverReplay (accept.validateUntrusted kem nonce maxAge clock) := by
  refine .bind (.rejectIf fun _ => PqKemError.noConfusion) fun _ => ?_
  refine .bind (.validateMessageAge _ _ _ _) fun _ => ?_
  refine .bind (.validateNonceBytes _ _) fun _ => ?_
  refine .bind (.rejectIf fun _ => PqKemError.noConfusion) fun _ => ?_
  refine .bind (.rejectIf fun _ => PqKemError.noConfusion) fun _ => ?_
  refine .bind (.rejectIf fun _ => PqKemError.noConfusion) fun _ => ?_
  refine .bind (.rejectIf fun _ => PqKemError.noConfusion) fun _ => ?_
  refine .bind (.copyIntoArray _ _ _) fun ct => ?_
  exact .bind (.catchCrypto _ _) fun _ => .ok ()

theorem respondToOffer (kem : MlKem) (offer : PqKemOffer) (maxAge : Duration)
    (world : AcceptWorld kem) : NeverReplay (respondToOffer kem offer maxAge world) := by
  refine .bind (.validateOffer kem offer maxAge world.rechecked) fun _ => ?_
  refine .bind (.copyIntoArray _ _ _) fun _ => ?_
  refine .bind (.catchCrypto _ _) fun ek => ?_
  refine .bind (.catchCrypto _ _) fun secrets => ?_
  refine .bind (.rejectIf fun _ => PqKemError.noConfusion) fun _ => ?_
  refine .bind (.rejectIf fun _ => PqKemError.noConfusion) fun _ => ?_
  refine .bind (.nowUnixSecs _) fun now => ?_
  refine .bind (.nonceArray offer) fun nonce => ?_
  exact .bind (.validateAccept kem _ nonce maxAge world.verified) fun _ => .ok _

end NeverReplay

/-! ### The filter -/

/-- The filter holds the last nonces of a history. -/
structure ReplayFilter.Holds (f : ReplayFilter) (history : List PqNonce) : Prop where
  order : f.order = history.rtake f.cap
  seen : f.seen = f.order.toFinset
  nodup : f.order.Nodup
  pos : 0 < f.cap

namespace ReplayFilter
variable {f : ReplayFilter} {history : List PqNonce} {nonce : PqNonce}

namespace Holds

theorem contains_iff (h : f.Holds history) : f.contains nonce = true ↔
    nonce ∈ history.rtake f.cap := by
  rw [contains, decide_eq_true_iff, h.seen, List.mem_toFinset, h.order]

/-- A nonce that is inserted is the newest one, and the oldest ones make room for it. -/
theorem insert (h : f.Holds history) (hnew : nonce ∉ history.rtake f.cap) :
    (f.insert nonce).2.Holds (Window.note f.cap history nonce) ∧
      (f.insert nonce).2.cap = f.cap := by
  obtain ⟨n, hn⟩ : ∃ n, f.cap = n+1 := Nat.exists_eq_succ_of_ne_zero h.pos.ne'
  have hfresh : nonce ∉ f.seen := by
    rwa [h.seen, List.mem_toFinset, h.order]
  have hevict : Window.evict f.cap f.seen f.order =
      ((history.rtake n).toFinset, history.rtake n) := by
    rw [h.seen, hn, Window.evict_eq h.nodup, h.order, hn, Window.rtake_rtake (Nat.le_succ n)]
  have hnodup : ((Window.note (n+1) history nonce).rtake (n+1)).Nodup :=
    Window.nodup_note (hn ▸ h.order ▸ h.nodup) nonce
  have hlast : (Window.note (n+1) history nonce).rtake (n+1) = history.rtake n ++ [nonce] :=
    Window.rtake_note_of_not_mem (hn ▸ hnew)
  rw [ReplayFilter.insert, if_neg hfresh, hevict]
  refine ⟨⟨?_, ?_, ?_, h.pos⟩, rfl⟩
  · dsimp only
    rw [hn, hlast]
  · dsimp only
    rw [List.toFinset_append, Finset.union_comm]
    rfl
  · dsimp only
    rw [← hlast]
    exact hnodup

end Holds
end ReplayFilter

/-! ### Offers taken -/

section Exchange
variable {kem : MlKem}

variable (kem) in
/-- What an offer passes before its nonce is looked up. -/
def PqKemPolicy.screen (policy : PqKemPolicy) (clock : Int64) (offer : PqKemOffer) :
    PqResult PqNonce := do
  policy.validate
  offer.validateUntrusted kem policy.maxMessageAge clock
  offer.nonceArray

theorem nonceArray_ok_iff {offer : PqKemOffer} {nonce : PqNonce} :
    offer.nonceArray = .ok nonce ↔
      nonce.toList.all (· = 0) = false ∧ offer.nonce = nonce.toList := by
  simp only [PqKemOffer.nonceArray, validateNonceBytes, validateExactLen, validateNotAllZero,
    copyIntoArray, bind_eq_ok_iff, rejectIf_eq_ok_iff, Unique.exists_iff, not_not,
    Bool.not_eq_true]
  constructor
  · rintro ⟨⟨-, hzero⟩, hcopy⟩
    split at hcopy
    · cases hcopy
      exact ⟨hzero, rfl⟩
    · cases hcopy
  · rintro ⟨hzero, hsame⟩
    rw [hsame]
    exact ⟨⟨nonce.toList_length, hzero⟩, dif_pos nonce.toList_length⟩

namespace PqKemManager
variable {m : PqKemManager} {history : List PqNonce} {world : AcceptWorld kem} {offer : PqKemOffer}
  {nonce : PqNonce}

theorem acceptOffer_run (world : AcceptWorld kem) (offer : PqKemOffer) (m : PqKemManager) :
    acceptOffer kem world offer m =
      (lift (m.policy.screen kem world.checked offer) >>= fun nonce => do
        update fun manager => do
          let replayFilter ← manager.replayFilter.checkAndInsert nonce
          return { manager with replayFilter }
        lift (respondToOffer kem offer m.policy.maxMessageAge world)) m := by
  rw [PqKemPolicy.screen]
  exact lift_bind_of fun _ => lift_bind_of fun _ => rfl

theorem acceptOffer_unscreened {e : PqKemError}
    (h : m.policy.screen kem world.checked offer = .error e) :
    acceptOffer kem world offer m = .error e m := by
  rw [acceptOffer_run, h]
  rfl

/-- A screened offer is a replay, or its nonce is inserted and it is answered. -/
theorem acceptOffer_screened (h : m.policy.screen kem world.checked offer = .ok nonce) :
    acceptOffer kem world offer m =
      if m.replayFilter.contains nonce then
        .error (.replayDetected (hexEncode nonce.toList)) m
      else lift (respondToOffer kem offer m.policy.maxMessageAge world)
        { m with replayFilter := (m.replayFilter.insert nonce).2 } := by
  have hnonce : offer.nonceArray = .ok nonce := by
    simp only [PqKemPolicy.screen, bind_eq_ok_iff] at h
    obtain ⟨-, -, -, -, hnonce⟩ := h
    exact hnonce
  have hzero : ¬nonce.toList.all (· = 0) = true := by
    rw [(nonceArray_ok_iff.mp hnonce).1]
    exact Bool.false_ne_true
  have hcheck : m.replayFilter.checkAndInsert nonce =
      if m.replayFilter.contains nonce then .error (.replayDetected (hexEncode nonce.toList))
      else .ok (m.replayFilter.insert nonce).2 := by
    rw [ReplayFilter.checkAndInsert, validateNotAllZero, rejectIf_of_not _ hzero, ok_bind, rejectIf]
    split
    · rfl
    · rfl
  rw [acceptOffer_run, h]
  change (update _ >>= _) m = _
  rw [bind_run, update, hcheck]
  cases m.replayFilter.contains nonce with
  | true => rfl
  | false => rfl

/-- The nonces inserted so far, after one more offer. -/
def inserted (policy : PqKemPolicy) (history : List PqNonce)
    (call : AcceptWorld kem × PqKemOffer) : List PqNonce :=
  match policy.screen kem call.1.checked call.2 with
  | .ok nonce => Window.note (clampReplayCapacity policy.replayFilterCapacity) history nonce
  | .error _ => history

/-- The manager follows the history. -/
structure Follows (policy : PqKemPolicy) (history : List PqNonce) (m : PqKemManager) : Prop where
  samePolicy : m.policy = policy
  capacity : m.replayFilter.cap = clampReplayCapacity policy.replayFilterCapacity
  holds : m.replayFilter.Holds history

theorem Follows.step {policy : PqKemPolicy} (h : Follows policy history m)
    (call : AcceptWorld kem × PqKemOffer) :
    Follows policy (inserted policy history call) (storeOf (acceptOffer kem call.1 call.2 m)) := by
  rw [inserted, ← h.samePolicy]
  cases hscreen : m.policy.screen kem call.1.checked call.2 with
  | error e =>
    rw [acceptOffer_unscreened hscreen]
    exact h.samePolicy ▸ h
  | ok nonce =>
    have hseen : m.replayFilter.contains nonce = true ↔ nonce ∈ history.rtake m.replayFilter.cap :=
      h.holds.contains_iff
    rw [acceptOffer_screened hscreen, h.samePolicy, ← h.capacity]
    dsimp only
    split
    · rename_i hcontains
      rw [Window.note, if_pos (hseen.mp hcontains)]
      exact h
    · rename_i hcontains
      obtain ⟨hholds, hcap⟩ := h.holds.insert fun hmem => hcontains (hseen.mpr hmem)
      rw [storeOf_lift]
      exact ⟨rfl, hcap.trans h.capacity, hholds⟩

def runOffers (m : PqKemManager) (calls : List (AcceptWorld kem × PqKemOffer)) : PqKemManager :=
  calls.foldl (fun m call => storeOf (acceptOffer kem call.1 call.2 m)) m

theorem Follows.run {policy : PqKemPolicy} (h : Follows policy history m)
    (calls : List (AcceptWorld kem × PqKemOffer)) :
    Follows policy (calls.foldl (inserted policy) history) (runOffers m calls) := by
  induction calls generalizing history m with
  | nil => exact h
  | cons call calls ih => exact ih (h.step call)

end PqKemManager
end Exchange

/-! ### The number of an offer -/

/-- A nonce that is mixed is never refused for being zero. -/
theorem offerNonce_not_zero (peerBytes : List UInt8) (state : BitVec 128) :
    (offerNonce peerBytes state).toList.all (· = 0) = false := by
  rw [offerNonce]
  split
  · generalize (List.Vector.ofFn fun i : Fin 32 => offerSlot peerBytes state i.val) = nonce
    rw [List.all_eq_false]
    refine ⟨1, ?_, by decide⟩
    rw [List.Vector.toList_set]
    exact List.mem_set (by rw [nonce.toList_length]; decide) _
  · rename_i hzero
    exact Bool.eq_false_iff.mpr hzero

section Honest
variable {kem : MlKem} {m : PqKemManager} {ek : List.Vector UInt8 1184} {nonce : PqNonce}
  {clock check : Int64} {offer : PqKemOffer}

theorem buildOffer_ok_iff : m.buildOffer ek nonce clock = .ok offer ↔
    m.policy.validate = .ok () ∧ nonce.toList.all (· = 0) = false ∧
      ek.toList.all (· = 0) = false ∧ ∃ now, PqKem.nowUnixSecs clock = .ok now ∧
        offer = ⟨pqKemSuiteId, now, nonce.toList, ek.toList⟩ := by
  simp only [PqKemManager.buildOffer, LocalPqKeypair.buildOffer, validateNotAllZero, bind_eq_ok_iff,
    rejectIf_eq_ok_iff, pure_eq_ok_iff, Unique.exists_iff, Bool.not_eq_true]
  constructor
  · rintro ⟨hpolicy, hzero, -, hek, now, hnow, rfl⟩
    exact ⟨hpolicy, hzero, hek, now, hnow, rfl⟩
  · rintro ⟨hpolicy, hzero, hek, now, hnow, rfl⟩
    exact ⟨hpolicy, hzero, hzero, hek, now, hnow, rfl⟩

end Honest

namespace PqSample

/-- Keys are taken as they are, and every answer has the same secret. -/
def kem : MlKem where
  EncapsKey := List.Vector UInt8 1184
  Coins := Unit
  encapsKeyOfBytes := .ok
  cipherTextOfBytes _ := .ok ()
  tryEncaps _ _ := .ok (.replicate 32 1, .replicate 1088 1)

/-- A node with two peers. -/
def node : P2pSync := .new .empty none ⟨[[1], [2]], [], 0, 0, 0⟩

/-- The text of the first peer's id. -/
def peerText : List UInt8 := Text.utf8 "12D3KooWPeerOne"

def earlier : Int64 := 1699999997952
@[irreducible] def nonce : PqNonce := node.buildPqOfferNonceForPeer earlier peerText

def manager : PqKemManager := .new policyDefault

@[irreducible] def ek (b : UInt8) : List.Vector UInt8 1184 := .replicate 1184 b

def offer (secs : UInt64) (b : UInt8) : PqKemOffer :=
  ⟨pqKemSuiteId, secs, nonce.toList, (ek b).toList⟩

def world : AcceptWorld kem := ⟨1700000001, 1700000001, 1700000001, 1700000001, ()⟩

theorem built (clock : Int64) {secs : UInt64} (h : PqKem.nowUnixSecs clock = .ok secs) {b : UInt8}
    (hb : (ek b).toList.all (· = 0) = false) :
    manager.buildOffer (ek b) nonce clock = .ok (offer secs b) := by
  have hzero : nonce.toList.all (· = 0) = false := by
    unfold nonce
    exact offerNonce_not_zero _ _
  exact buildOffer_ok_iff.mpr ⟨by decide, hzero, hb, secs, h, rfl⟩

end PqSample

end Remzar
