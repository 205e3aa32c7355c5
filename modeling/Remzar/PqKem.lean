import Mathlib
import Remzar.Helper
import Remzar.P2pSync
import Remzar.Lib.Window
import Remzar.Lib.Effects

/-! The post-quantum key exchange: offers, answers, the filter for offers that come again, and the
number an offer is made with. -/
namespace Remzar
open Fallible Effects

inductive PqKemError where
  | invalidLength (field : String) (expected actual : ℕ)
  | invalidRange (field details : String)
  | invalidState (msg : String)
  | invalidMessage (msg : String)
  | expired (field : String) (ageSecs maxAgeSecs : UInt64)
  | clockSkew (field : String) (nowUnixSecs createdAtUnixSecs skewSecs maxFutureSkewSecs : UInt64)
  | replayDetected (nonceHex : String)
  | crypto (msg : String)
  deriving DecidableEq

abbrev PqResult (α : Type) := Except PqKemError α
abbrev PqNonce := List.Vector UInt8 32

/-- `std::time::Duration`. -/
structure Duration where
  asSecs : UInt64
  subsecNanos : UInt32

/-- What a call into the cryptography comes to when it does not succeed. -/
inductive CryptoFault where
  | refused (msg : String)
  | panicked

/-- ML-KEM-768. Encapsulation draws its coins from the system. -/
structure MlKem where
  EncapsKey : Type
  Coins : Type
  encapsKeyOfBytes : List.Vector UInt8 1184 → Except CryptoFault EncapsKey
  cipherTextOfBytes : List.Vector UInt8 1088 → Except CryptoFault Unit
  tryEncaps : EncapsKey → Coins →
    Except CryptoFault (List.Vector UInt8 32 × List.Vector UInt8 1088)

structure PqKemOffer where
  suiteId : UInt16
  createdAtUnixSecs : UInt64
  nonce : List UInt8
  ek : List UInt8
  deriving DecidableEq

structure PqKemAccept where
  suiteId : UInt16
  offerNonce : List UInt8
  createdAtUnixSecs : UInt64
  ct : List UInt8

structure PqSessionKey where
  secret : List.Vector UInt8 32
  suiteId : UInt16
  suiteName : String
  establishedAtUnixSecs : UInt64

structure PqKemPolicy where
  maxMessageAge : Duration
  requireSingleUseLocalKeypair : Bool
  replayFilterCapacity : ℕ

/-- The order holds what has been seen, the oldest first. -/
structure ReplayFilter where
  seen : Finset PqNonce
  order : List PqNonce
  cap : ℕ

structure PqKemManager where
  policy : PqKemPolicy
  replayFilter : ReplayFilter

/-- What an answer finds outside: the clock each time it is read, and the coins. -/
structure AcceptWorld (kem : MlKem) where
  checked : Int64
  rechecked : Int64
  answered : Int64
  verified : Int64
  coins : kem.Coins

namespace PqKem

def defaultReplayFilterCapacity : ℕ := 4096
def minReplayFilterCapacity : ℕ := 16
def maxReplayFilterCapacity : ℕ := 65536
def defaultMaxMessageAgeSecs : UInt64 := 120
def maxFutureSkewSecs : UInt64 := 10
def maxAllowedMessageAgeSecs : UInt64 := 10*60
abbrev pqNonceLen : ℕ := 32
def pqKemSuiteId : UInt16 := 0x0301
def pqKemSuiteName : String := "ML-KEM-768/FIPS203-0.4.3"
abbrev ekLen : ℕ := 1184
abbrev ctLen : ℕ := 1088

def nowUnixSecs (clock : Int64) : PqResult UInt64 :=
  mapErr (fun _ => .invalidState "failed to derive runtime unix timestamp from TimePolicy")
    (nowUnixSecsRuntime clock)

def hexEncode (bytes : List UInt8) : String := Blake3.toHex bytes

/-! ### Checks -/

def validateExactLen (field : String) (got expected : ℕ) : PqResult Unit :=
  rejectIf (got ≠ expected) (.invalidLength field expected got)

def validateNonzeroU64 (field : String) (value : UInt64) : PqResult Unit :=
  rejectIf (value = 0) (.invalidRange field "must be nonzero")

def validateNotAllZero (field : String) (bytes : List UInt8) : PqResult Unit :=
  rejectIf (bytes.all (· = 0)) (.invalidRange field "must not be all zero")

def validateNonceBytes (field : String) (nonce : List UInt8) : PqResult Unit := do
  validateExactLen field nonce.length pqNonceLen
  validateNotAllZero field nonce

def validateSuiteId (suiteId : UInt16) : PqResult Unit :=
  rejectIf (suiteId ≠ pqKemSuiteId) (.invalidMessage "unexpected PQ suite id")

def clampReplayCapacity (cap : ℕ) : ℕ := max minReplayFilterCapacity (min cap maxReplayFilterCapacity)

/-- A panic is turned into an error that names the operation. -/
def catchCrypto {α : Type} (op : String) : Except CryptoFault α → PqResult α
  | .ok a => .ok a
  | .error (.refused msg) => .error (.crypto msg)
  | .error .panicked => .error (.crypto op)

def validateMaxAge (maxAge : Duration) : PqResult Unit := do
  rejectIf (maxAge.asSecs = 0) (.invalidRange "max_message_age" "must be nonzero")
  rejectIf (maxAllowedMessageAgeSecs < maxAge.asSecs)
    (.invalidRange "max_message_age" "exceeds MAX_ALLOWED_MESSAGE_AGE_SECS")

def validateMessageAge (field : String) (createdAtUnixSecs : UInt64) (maxAge : Duration)
    (clock : Int64) : PqResult Unit := do
  validateNonzeroU64 "created_at_unix_secs" createdAtUnixSecs
  validateMaxAge maxAge
  let now ← nowUnixSecs clock
  if now < createdAtUnixSecs then
    let skewSecs := createdAtUnixSecs-now
    rejectIf (maxFutureSkewSecs < skewSecs)
      (.clockSkew field now createdAtUnixSecs skewSecs maxFutureSkewSecs)
  else
    let ageSecs := now-createdAtUnixSecs
    rejectIf (maxAge.asSecs < ageSecs) (.expired field ageSecs maxAge.asSecs)

def copyIntoArray (n : ℕ) (field : String) (src : List UInt8) : PqResult (List.Vector UInt8 n) :=
  if h : src.length = n then .ok ⟨src, h⟩ else .error (.invalidLength field n src.length)

def policyDefault : PqKemPolicy := ⟨⟨defaultMaxMessageAgeSecs, 0⟩, true, defaultReplayFilterCapacity⟩

end PqKem

open PqKem

def PqKemPolicy.validate (policy : PqKemPolicy) : PqResult Unit := do
  validateMaxAge policy.maxMessageAge
  rejectIf (policy.replayFilterCapacity = 0)
    (.invalidRange "replay_filter_capacity" "must be nonzero")
  rejectIf (maxReplayFilterCapacity < policy.replayFilterCapacity)
    (.invalidRange "replay_filter_capacity" "exceeds MAX_REPLAY_FILTER_CAPACITY")

/-! ### The filter -/

namespace ReplayFilter

def new (cap : ℕ) : ReplayFilter := ⟨∅, [], clampReplayCapacity cap⟩

def contains (f : ReplayFilter) (nonce : PqNonce) : Bool := nonce ∈ f.seen

def len (f : ReplayFilter) : ℕ := f.seen.card

def capacity (f : ReplayFilter) : ℕ := f.cap

def insert (nonce : PqNonce) (f : ReplayFilter) : Bool × ReplayFilter :=
  if nonce ∈ f.seen then (false, f)
  else
    let (seen, order) := Window.evict f.cap f.seen f.order
    (nonce ∉ seen, { f with seen := Insert.insert nonce seen, order := order ++ [nonce] })

def checkAndInsert (nonce : PqNonce) (f : ReplayFilter) : PqResult ReplayFilter := do
  validateNotAllZero "nonce" nonce.toList
  rejectIf (f.contains nonce) (.replayDetected (hexEncode nonce.toList))
  return (f.insert nonce).2

end ReplayFilter

/-! ### Offers and answers -/

section Exchange
variable (kem : MlKem)

def PqKemOffer.validateUntrusted (offer : PqKemOffer) (maxAge : Duration) (clock : Int64) :
    PqResult Unit := do
  validateSuiteId offer.suiteId
  validateMessageAge "PqKemOffer" offer.createdAtUnixSecs maxAge clock
  validateNonceBytes "nonce" offer.nonce
  validateExactLen "ek" offer.ek.length ekLen
  validateNotAllZero "ek" offer.ek
  let ek ← copyIntoArray ekLen "ek" offer.ek
  let _ ← catchCrypto "EncapsKey::try_from_bytes panicked" (kem.encapsKeyOfBytes ek)

def PqKemOffer.nonceArray (offer : PqKemOffer) : PqResult PqNonce := do
  validateNonceBytes "nonce" offer.nonce
  copyIntoArray pqNonceLen "nonce" offer.nonce

def PqKemAccept.validateUntrusted (accept : PqKemAccept) (expectedOfferNonce : PqNonce)
    (maxAge : Duration) (clock : Int64) : PqResult Unit := do
  validateSuiteId accept.suiteId
  validateMessageAge "PqKemAccept" accept.createdAtUnixSecs maxAge clock
  validateNonceBytes "offer_nonce" accept.offerNonce
  validateNotAllZero "expected_offer_nonce" expectedOfferNonce.toList
  validateExactLen "ct" accept.ct.length ctLen
  validateNotAllZero "ct" accept.ct
  rejectIf (accept.offerNonce ≠ expectedOfferNonce.toList) (.invalidMessage "offer_nonce mismatch")
  let ct ← copyIntoArray ctLen "ct" accept.ct
  let _ ← catchCrypto "CipherText::try_from_bytes panicked" (kem.cipherTextOfBytes ct)

def respondToOffer (offer : PqKemOffer) (maxAge : Duration) (world : AcceptWorld kem) :
    PqResult (PqKemAccept × PqSessionKey) := do
  offer.validateUntrusted kem maxAge world.rechecked
  let ekArr ← copyIntoArray ekLen "ek" offer.ek
  let ek ← catchCrypto "EncapsKey::try_from_bytes panicked" (kem.encapsKeyOfBytes ekArr)
  let (ss, ct) ← catchCrypto "ML-KEM encapsulation panicked" (kem.tryEncaps ek world.coins)
  validateNotAllZero "ct" ct.toList
  validateNotAllZero "shared_secret" ss.toList
  let now ← nowUnixSecs world.answered
  let accept : PqKemAccept := ⟨pqKemSuiteId, offer.nonce, now, ct.toList⟩
  let nonce ← offer.nonceArray
  accept.validateUntrusted kem nonce maxAge world.verified
  return (accept, ⟨ss, pqKemSuiteId, pqKemSuiteName, now⟩)

/-- An offer of the key pair that is kept for its answer. -/
def LocalPqKeypair.buildOffer (ekBytes : List.Vector UInt8 1184) (nonce : PqNonce) (clock : Int64) :
    PqResult PqKemOffer := do
  validateNotAllZero "nonce" nonce.toList
  validateNotAllZero "ek" ekBytes.toList
  let now ← nowUnixSecs clock
  return ⟨pqKemSuiteId, now, nonce.toList, ekBytes.toList⟩

namespace PqKemManager

def new (policy : PqKemPolicy) : PqKemManager := ⟨policy, .new policy.replayFilterCapacity⟩

def buildOffer (m : PqKemManager) (ekBytes : List.Vector UInt8 1184) (nonce : PqNonce)
    (clock : Int64) : PqResult PqKemOffer := do
  m.policy.validate
  validateNotAllZero "nonce" nonce.toList
  LocalPqKeypair.buildOffer ekBytes nonce clock

def acceptOffer (world : AcceptWorld kem) (offer : PqKemOffer) :
    EStateM PqKemError PqKemManager (PqKemAccept × PqSessionKey) := do
  let manager ← get
  lift manager.policy.validate
  lift (offer.validateUntrusted kem manager.policy.maxMessageAge world.checked)
  let nonce ← lift offer.nonceArray
  update fun manager => do
    let replayFilter ← manager.replayFilter.checkAndInsert nonce
    return { manager with replayFilter }
  lift (respondToOffer kem offer manager.policy.maxMessageAge world)

end PqKemManager
end Exchange

/-! ### The number of an offer -/

/-- One round of the mix. -/
def mixOfferRound (peerBytes : List UInt8) (state : BitVec 128) (i : ℕ) : BitVec 128 :=
  let peerB := if peerBytes.length = 0 then 0 else peerBytes.getD (i % peerBytes.length) 0
  let state := state ^^^ peerB.toBitVec.setWidth 128
  let state := state ^^^ BitVec.ofNat 128 i*0x9e3779b97f4a7c15#128
  state.rotateLeft 17*0xd6e8feb86659fd93#128

/-- The mix before a round. -/
def mixOffer (peerBytes : List UInt8) (state : BitVec 128) : ℕ → BitVec 128
  | 0 => state
  | i+1 => mixOfferRound peerBytes (mixOffer peerBytes state i) i

def offerSlot (peerBytes : List UInt8) (state : BitVec 128) (i : ℕ) : UInt8 :=
  let peerB := if peerBytes.length = 0 then 0 else peerBytes.getD (i % peerBytes.length) 0
  let stateByte := UInt8.ofBitVec ((mixOffer peerBytes state (i+1) >>> (8*(i % 16))).setWidth 8)
  stateByte ^^^ peerB ^^^ UInt8.ofNat i*31

/-- The nonce mixed from a word and the text of a peer's id. -/
def offerNonce (peerBytes : List UInt8) (state : BitVec 128) : PqNonce :=
  let nonce : PqNonce := .ofFn fun i => offerSlot peerBytes state i.val
  if nonce.toList.all (· = 0) then nonce.set 0 1 else nonce

namespace P2pSync

/-- What the mix starts from. -/
def offerWord (nowMs : UInt64) (s : P2pSync) : BitVec 128 :=
  nowMs.toBitVec.setWidth 128 ^^^ s.localTip.toBitVec.setWidth 128 <<< 17 ^^^
    s.syncTarget.toBitVec.setWidth 128 <<< 41 ^^^ BitVec.ofNat 128 s.pendingPq.size <<< 3 ^^^
    BitVec.ofNat 128 s.pqInitiators.length <<< 11

/-- The clock counts as zero when it cannot be read. -/
def nowMillis (clock : Int64) : UInt64 :=
  match nowUnixMillisRuntime clock with
  | .ok ms => ms
  | .error _ => 0

def buildPqOfferNonceForPeer (clock : Int64) (peerText : List UInt8) (s : P2pSync) : PqNonce :=
  offerNonce peerText (s.offerWord (nowMillis clock))

end P2pSync
end Remzar
