import Mathlib
import Remzar.Amounts
import Remzar.BatchOrder
import Remzar.RegistrySpec
import Remzar.SendFile

/-! The slot machine: a play takes an entry fee for the house and pays out by how close the guess
comes, each as a transfer that is filed in the mempool and handed to the network. -/
namespace Remzar
open Std Fallible Checked Decimal Text Effects

/-! ### Transfers -/

/-- The two readings of the clock while a transaction is built. -/
structure Stamp where
  stamped : Int64
  checked : Int64

def Transaction.basicChecks (sender receiver : String) (amount : UInt64) :
    Fallible (String × String) := do
  let senderTrim := trim sender
  let receiverTrim := trim receiver
  rejectIf (senderTrim.isEmpty ∨ receiverTrim.isEmpty)
    (validationErr "Sender and receiver addresses cannot be empty.")
  rejectIf (byteLen senderTrim ≠ remzarWalletLen ∨ byteLen receiverTrim ≠ remzarWalletLen)
    (validationErr s!"Invalid address length: sender({byteLen senderTrim}) receiver({byteLen receiverTrim}) expected({remzarWalletLen})")
  let senderCanon ← canonWalletIdChecked senderTrim
  let receiverCanon ← canonWalletIdChecked receiverTrim
  rejectIf (senderCanon = receiverCanon) (validationErr "Sender and receiver cannot be the same.")
  rejectIf (amount = 0) (validationErr "Transaction amount must be greater than zero.")
  return (senderCanon, receiverCanon)

def Transaction.strToArr (s : String) : Fallible WalletArray :=
  okOr (toWalletArray (utf8 s)) (validationErr
    s!"Address must be exactly {remzarWalletLen} bytes in length. Found {byteLen s} bytes.")

def Transaction.new (stamp : Stamp) (sender receiver : String) (amount : UInt64) :
    Fallible Transaction := do
  let (senderCanon, receiverCanon) ← Transaction.basicChecks sender receiver amount
  let senderArr ← Transaction.strToArr senderCanon
  let receiverArr ← Transaction.strToArr receiverCanon
  let timestamp ← nowUnixSecsRuntime stamp.stamped
  let tx : Transaction := ⟨senderArr, receiverArr, amount, timestamp⟩
  let now ← nowUnixSecsRuntime stamp.checked
  tx.validateForMempoolAt now
  return tx

/-- What the system reports while one payment is made: the clock behind the transaction that is
filed, the second and the random number of its key, and the clock behind the one that is sent. -/
structure PaymentReading where
  stored : Stamp
  keySecs : Int64
  keyRandom : UInt32
  broadcast : Stamp

def makeTsKey (secs : Int64) (random : UInt32) : Fallible String := do
  rejectIf (secs < 0) (.timestampError "System time before UNIX_EPOCH.")
  return "tx_" ++ s!"{secs.toUInt64}_{random}"

def enqueueTransferToMempool [Blake3] (r : PaymentReading) (sender receiver : String)
    (amountMicro : UInt64) (db : RockDB) : Fallible RockDB := do
  let sender ← canonWalletIdChecked sender
  let receiver ← canonWalletIdChecked receiver
  rejectIf (sender = receiver) (validationErr "Refusing self-transfer.")
  rejectIf (amountMicro = 0) (validationErr "Amount must be > 0.")
  let tx ← Transaction.new r.stored sender receiver amountMicro
  let txBytes := (TxKind.transfer tx).serialize
  let hash := Blake3.xof64 txBytes
  if (db.read .txToHash hash.toList).isNone then do
    let tsKey ← makeTsKey r.keySecs r.keyRandom
    return (db.put .transaction (utf8 tsKey) txBytes).put .txToHash hash.toList txBytes
  else return db

/-! ### Prompts -/

/-- A line of the input, or the error of reading it. -/
abbrev PromptLine := Fallible String

/-- A dialogue takes lines from the input; after the end of the input every line is empty. -/
abbrev Prompt := StateT (List PromptLine) (Except ErrorDetection)

def maxAddrInput : ℕ := remzarWalletLen + 8
def maxYnInput : ℕ := 16
def maxGuessInput : ℕ := 16
def maxAmountInput : ℕ := 64
def maxAttempts : ℕ := 3

def capLine (cap : ℕ) (s : String) : Fallible String := do
  let trimmed := trim s
  rejectIf (cap < byteLen trimmed) (validationErr s!"Input too long (max {cap} chars)")
  rejectIf (trimmed.toList.any isControl)
    (validationErr "Input contains invalid control characters")
  return trimmed

def readLineCapped (cap : ℕ) : Prompt String
  | [] => do
    let s ← capLine cap ""
    return (s, [])
  | line :: lines => do
    let raw ← line
    let s ← capLine cap raw
    return (s, lines)

def readWalletCapped (cap : ℕ) : Prompt String := fun lines => do
  let (raw, rest) ← readLineCapped cap lines
  let wallet ← canonWalletIdChecked raw
  return (wallet, rest)

def readYesNoCapped (cap : ℕ) : ℕ → Prompt Bool
  | 0 => throw (validationErr "Too many invalid yes/no responses.")
  | attempts+1 => do
    let s ← readLineCapped cap
    let v := toAsciiLowercase (trim s)
    if v = "yes" ∨ v = "y" then return true
    else if v = "no" ∨ v = "n" then return false
    else readYesNoCapped cap attempts

/-- `str::parse::<u32>`. -/
def parseU32 (s : String) : Option UInt32 :=
  (parseU64 s).bind fun n => if n.toNat < 2^32 then some n.toUInt32 else none

def readGuess1To100 (cap : ℕ) : ℕ → Prompt UInt32
  | 0 => throw (validationErr "Too many invalid guesses.")
  | attempts+1 => do
    let s ← readLineCapped cap
    match parseU32 (trim s) with
    | none => readGuess1To100 cap attempts
    | some n => if 1 ≤ n ∧ n ≤ 100 then return n else readGuess1To100 cap attempts

-- The loop has no limit of its own: at the end of the input the empty line takes the default.
def readEntryFee (entryFeeMicro : UInt64) : List PromptLine → Fallible (UInt64 × List PromptLine)
  | [] => .ok (entryFeeMicro, [])
  | line :: lines => do
    let raw ← line
    let s ← capLine maxAmountInput raw
    let amt := toMicroUnitsStr s
    if (trim s).isEmpty then return (entryFeeMicro, lines)
    else if amt = 0 then readEntryFee entryFeeMicro lines
    else if amt ≠ entryFeeMicro then readEntryFee entryFeeMicro lines
    else return (amt, lines)

/-! ### The game -/

structure SlotMachineGameConfig where
  houseAddress : String
  entryFeeMicro : UInt64

def slotHouseAddress : String :=
  "rae657f74dd0cda2144c396c54e60c4703866f9c2b486aa0925d2af008de21115e3aa3215409015a1944eeff1474896b261f52564a757bb279e56ecaa123319e7"

def slotEntryFeeMicro : UInt64 := unitDivisor

structure SlotMachineGame where
  cfg : SlotMachineGameConfig := ⟨slotHouseAddress, slotEntryFeeMicro⟩

/-- What the caller provides and the system reports during a play. Balances are asked for five
times and may change from one time to the next; two transactions at most are sent. -/
structure SlotMachineContext where
  getBalanceMicro : ℕ → String → UInt64
  sendNetCmd : ℕ → Transaction → Fallible Unit
  proveWalletOwnership : String → Fallible Unit
  spinMillis : Int64
  randomTarget : UInt32
  fee : PaymentReading
  payout : PaymentReading

/-- What a play changes: the input that is left, the time of each player's last play, the database
and the transactions handed to the network. -/
structure SlotSession where
  lines : List PromptLine
  lastSpinAt : ExtTreeMap String UInt64
  db : RockDB
  sent : List Transaction

abbrev SlotPlay := EStateM ErrorDetection SlotSession

def minCooldownBetweenSpins : UInt64 := 900

def ask {α : Type} (p : Prompt α) : SlotPlay α := fun s =>
  match p s.lines with
  | .ok (a, lines) => .ok a { s with lines := lines }
  | .error e => .error e s

def checkCooldown (now : UInt64) : Option UInt64 → Fallible Unit
  | some prev => do
    let deltaMs := saturatingSub now prev
    let remainingMs := saturatingSub minCooldownBetweenSpins deltaMs
    rejectIf (deltaMs < minCooldownBetweenSpins)
      (validationErr s!"Slow down: wait ~{remainingMs}ms between plays.")
  | none => return ()

def enforceCooldown (spinMillis : Int64) (player : String) : SlotPlay Unit := update fun s => do
  rejectIf (spinMillis < 0) (.timestampError "System time before UNIX_EPOCH.")
  let now := spinMillis.toUInt64
  checkCooldown now s.lastSpinAt[player]?
  return { s with lastSpinAt := s.lastSpinAt.insert player now }

def sendTx (send : Transaction → Fallible Unit) (tx : Transaction) : SlotPlay Unit := fun s =>
  lift (send tx) { s with sent := s.sent ++ [tx] }

/-- One payment: a transaction is filed, and a second one of the same parties is sent. -/
def pay [Blake3] (r : PaymentReading) (send : Transaction → Fallible Unit)
    (sender receiver : String) (amountMicro : UInt64) : SlotPlay Unit := do
  update fun s => do
    let db ← enqueueTransferToMempool r sender receiver amountMicro s.db
    return { s with db := db }
  let tx ← lift (Transaction.new r.broadcast sender receiver amountMicro)
  sendTx send tx

namespace SlotMachineGame

def maxPayoutMicro : UInt64 := saturatingMul 100 unitDivisor

def canonicalHouseAddress (game : SlotMachineGame) : Fallible String := do
  let configured := game.cfg.houseAddress
  let house ← canonWalletIdChecked configured
  rejectIf (house ≠ configured) (validationErr
    s!"HOUSE wallet is not canonical. configured={configured} canonical={house}")
  rejectIf (game.cfg.entryFeeMicro = 0) (validationErr "Slot entry fee must be > 0")
  rejectIf (maxPayoutMicro < game.cfg.entryFeeMicro)
    (validationErr "Slot max payout must be >= entry fee")
  return house

def genTarget1To100 (random : UInt32) : UInt32 := random%100+1

def absDiff (a b : UInt32) : ℕ := a.toNat-b.toNat+(b.toNat-a.toNat)

def payoutFromGuess (target guess : UInt32) : UInt64 :=
  if target = 0 then 0
  else
    let diff := absDiff target guess
    let payoutRemzar : UInt64 :=
      if diff = 0 then 100
      else if diff ≤ 2 then 10
      else if diff = 3 then 5
      else if diff ≤ 10 then 2
      else if diff ≤ 20 then 1
      else 0
    saturatingMul payoutRemzar unitDivisor

/-- Everything up to the entry fee: who plays against which house for how much, if anyone. -/
def seat (game : SlotMachineGame) (ctx : SlotMachineContext) :
    SlotPlay (Option (String × String × UInt64)) := do
  let houseWallet ← lift game.canonicalHouseAddress
  let wants ← ask (readYesNoCapped maxYnInput maxAttempts)
  if wants = false then return none
  else do
    let player ← ask (readWalletCapped maxAddrInput)
    lift (rejectIf (player = houseWallet)
      (validationErr "PLAYER wallet must not be the HOUSE wallet."))
    let feeMicro ← ask (readEntryFee game.cfg.entryFeeMicro)
    enforceCooldown ctx.spinMillis player
    lift (ctx.proveWalletOwnership player)
    if ctx.getBalanceMicro 0 player < feeMicro then return none
    else if ctx.getBalanceMicro 1 houseWallet < maxPayoutMicro then return none
    else do
      let confirmed ← ask (readYesNoCapped maxYnInput maxAttempts)
      if confirmed = false then return none
      else if ctx.getBalanceMicro 2 player < feeMicro then return none
      else if ctx.getBalanceMicro 3 houseWallet < maxPayoutMicro then return none
      else return some (player, houseWallet, feeMicro)

/-- The guess, and the prize if it wins one that the house can pay. -/
def guessAndPay [Blake3] (ctx : SlotMachineContext) (player houseWallet : String) :
    SlotPlay Unit := do
  let guess ← ask (readGuess1To100 maxGuessInput maxAttempts)
  let payoutMicro := payoutFromGuess (genTarget1To100 ctx.randomTarget) guess
  if 0 < payoutMicro then
    if ctx.getBalanceMicro 4 houseWallet < payoutMicro then return ()
    else pay ctx.payout (ctx.sendNetCmd 1) houseWallet player payoutMicro
  else return ()

def playOnceInteractive [Blake3] (game : SlotMachineGame) (ctx : SlotMachineContext) :
    SlotPlay Unit := do
  let seated ← game.seat ctx
  match seated with
  | none => return ()
  | some (player, houseWallet, feeMicro) => do
    pay ctx.fee (ctx.sendNetCmd 0) player houseWallet feeMicro
    guessAndPay ctx player houseWallet

end SlotMachineGame

/-! ### What a transaction holds -/

/-- A transfer between two wallets, stamped with the reading it was built at. -/
structure Transaction.Built (stamp : Stamp) (sender receiver : String) (amount : UInt64)
    (tx : Transaction) : Prop where
  sender : tx.sender.toList = utf8 sender
  receiver : tx.receiver.toList = utf8 receiver
  amount : tx.amount = amount
  timestamp : tx.timestamp = stamp.stamped.toUInt64
  valid : tx.validateStructural = .ok ()

theorem strToArr_eq_ok_iff (s : String) (arr : WalletArray) :
    Transaction.strToArr s = .ok arr ↔ arr.toList = utf8 s := by
  rw [Transaction.strToArr, okOr_eq_ok_iff, toWalletArray]
  constructor
  · intro h
    split at h
    · rw [← Option.some.inj h]
      rfl
    · cases h
  · intro h
    have hlen : (utf8 s).length = 129 := by
      rw [← h]
      exact arr.toList_length
    rw [dif_pos hlen]
    exact congrArg some (Subtype.ext h.symm)

theorem CanonicalWallet.parsed {wallet : String} (h : CanonicalWallet wallet) :
    parseWalletAddressBytes (utf8 wallet) = .ok wallet := by
  have hzero : 0 ∉ utf8 wallet := by
    intro hmem
    rw [List.eq_cons_of_mem_head? (Option.mem_def.mpr h.head), List.mem_cons] at hmem
    rcases hmem with hhead | htail
    · cases hhead
    · cases List.all_eq_true.mp h.hex 0 htail
  have hlen : (utf8 wallet).length = remzarWalletLen := h.len
  rw [parseWalletAddressBytes, rejectIf_of_not _ (not_not_intro hlen), ok_bind,
    rejectIf_of_not _ hzero, ok_bind, fromUtf8_utf8,
    show okOr (some wallet) invalidWalletBytes = .ok wallet from rfl, ok_bind, parseWalletAddress]
  simp only [h.trim_eq]
  rw [rejectIf_of_not _ (not_not_intro h.len), ok_bind, rejectIf_of_not _ (not_not_intro h.head),
    ok_bind, rejectIf_of_not _ (not_not_intro h.hex)]
  rfl

section Building
variable {stamp : Stamp} {sender receiver : String} {amount : UInt64}

theorem basicChecks_ok {pair : String × String} (hsender : CanonicalWallet sender)
    (hreceiver : CanonicalWallet receiver)
    (h : Transaction.basicChecks sender receiver amount = .ok pair) :
    sender ≠ receiver ∧ amount ≠ 0 ∧ pair = (sender, receiver) := by
  simp only [Transaction.basicChecks, hsender.trim_eq, hreceiver.trim_eq, hsender.checked,
    hreceiver.checked, ok_bind, bind_eq_ok_iff, rejectIf_eq_ok_iff, pure_eq_ok_iff] at h
  obtain ⟨_, -, _, -, _, hne, _, hamount, rfl⟩ := h
  exact ⟨hne, hamount, rfl⟩

theorem transaction_new_ok {tx : Transaction} (hsender : CanonicalWallet sender)
    (hreceiver : CanonicalWallet receiver)
    (h : Transaction.new stamp sender receiver amount = .ok tx) :
    sender ≠ receiver ∧ amount ≠ 0 ∧ tx.Built stamp sender receiver amount := by
  simp only [Transaction.new, bind_eq_ok_iff, pure_eq_ok_iff] at h
  obtain ⟨pair, hchecks, senderArr, hsenderArr, receiverArr, hreceiverArr, timestamp, hstamp,
    now, -, u, hvalid, rfl⟩ := h
  obtain ⟨hne, hamount, rfl⟩ := basicChecks_ok hsender hreceiver hchecks
  have hstructural := (bind_eq_ok_iff _ _ _).mp hvalid
  obtain ⟨_, hstructural, -⟩ := hstructural
  exact ⟨hne, hamount, (strToArr_eq_ok_iff _ _).mp hsenderArr,
    (strToArr_eq_ok_iff _ _).mp hreceiverArr, rfl, (nowUnixSecsRuntime_ok hstamp).2, hstructural⟩

/-- Two transactions of one payment differ in their timestamps at most. -/
theorem Transaction.Built.eq_of_second {stamp' : Stamp} {tx tx' : Transaction}
    (h : tx.Built stamp sender receiver amount) (h' : tx'.Built stamp' sender receiver amount)
    (hsecond : stamp.stamped = stamp'.stamped) : tx = tx' := by
  have hs : tx.sender = tx'.sender := Subtype.ext (h.sender.trans h'.sender.symm)
  have hr : tx.receiver = tx'.receiver := Subtype.ext (h.receiver.trans h'.receiver.symm)
  have ha : tx.amount = tx'.amount := h.amount.trans h'.amount.symm
  have ht : tx.timestamp = tx'.timestamp := by
    rw [h.timestamp, h'.timestamp, hsecond]
  cases tx
  cases tx'
  simp only at hs hr ha ht
  rw [hs, hr, ha, ht]

theorem Transaction.Built.ne_of_second {stamp' : Stamp} {tx tx' : Transaction}
    (h : tx.Built stamp sender receiver amount) (h' : tx'.Built stamp' sender receiver amount)
    (hsecond : stamp.stamped ≠ stamp'.stamped) : tx ≠ tx' := by
  intro heq
  apply hsecond
  have ht : stamp.stamped.toUInt64 = stamp'.stamped.toUInt64 := by
    rw [← h.timestamp, ← h'.timestamp, heq]
  have hback := congrArg UInt64.toInt64 ht
  rwa [Int64.toInt64_toUInt64, Int64.toInt64_toUInt64] at hback

/-- A payment between two wallets is built whenever the clock allows it. -/
theorem transaction_new_of {tx : Transaction} {now : UInt64} (hsender : CanonicalWallet sender)
    (hreceiver : CanonicalWallet receiver) (hne : sender ≠ receiver) (hamount : amount ≠ 0)
    (hs : tx.sender.toList = utf8 sender) (hr : tx.receiver.toList = utf8 receiver)
    (ha : tx.amount = amount) (hstamped : nowUnixSecsRuntime stamp.stamped = .ok tx.timestamp)
    (hchecked : nowUnixSecsRuntime stamp.checked = .ok now)
    (hskew : validateRuntimeFutureSkewSecsDefault "Transaction.timestamp" tx.timestamp now =
      .ok ()) :
    Transaction.new stamp sender receiver amount = .ok tx := by
  have hparties : Transaction.basicChecks sender receiver amount = .ok (sender, receiver) := by
    have hblank : ∀ {wallet : String}, CanonicalWallet wallet → wallet.isEmpty = false := by
      intro wallet hwallet
      have hlen := hwallet.len
      rw [String.isEmpty_eq_false_iff]
      rintro rfl
      cases hlen
    rw [Transaction.basicChecks]
    simp only [hsender.trim_eq, hreceiver.trim_eq, hblank hsender, hblank hreceiver, hsender.len,
      hreceiver.len, ne_eq, not_true_eq_false, Bool.false_eq_true, or_self,
      rejectIf_of_not _ not_false, ok_bind, hsender.checked, hreceiver.checked,
      rejectIf_of_not _ hne, rejectIf_of_not _ hamount]
    rfl
  have hvalid : tx.validateForMempoolAt now = .ok () := by
    have hstructural := hskew
    rw [validateRuntimeFutureSkewSecsDefault, validateRuntimeFutureSkewSecs,
      bind_eq_ok_iff] at hstructural
    obtain ⟨_, hstructural, -⟩ := hstructural
    rw [Transaction.validateForMempoolAt, Transaction.validateStructural, hs, hr,
      hsender.parsed, ok_bind, hreceiver.parsed, ok_bind, rejectIf_of_not _ hne, ok_bind,
      rejectIf_of_not _ (ha ▸ hamount), ok_bind, hstructural]
    exact hskew
  rw [Transaction.new, hparties, ok_bind]
  simp only [(strToArr_eq_ok_iff sender tx.sender).mpr hs,
    (strToArr_eq_ok_iff receiver tx.receiver).mpr hr, ok_bind, hstamped, hchecked, ← ha, hvalid]
  rfl

end Building

theorem transfer_fits (tx : Transaction) : (TxKind.transfer tx).Fits :=
  ⟨trivial, trivial, trivial, trivial⟩

theorem transfer_serialize_inj {tx tx' : Transaction}
    (h : (TxKind.transfer tx).serialize = (TxKind.transfer tx').serialize) : tx = tx' :=
  TxKind.transfer.inj (TxKind.serialize_injective (transfer_fits tx) (transfer_fits tx') h)

/-! ### One payment -/

/-- A transaction found by its hash now and not before. -/
def NewlyFiled (before after : RockDB) (tx : Transaction) : Prop :=
  ∃ hash, before.read .txToHash hash = none ∧
    after.read .txToHash hash = some (TxKind.transfer tx).serialize

/-- Nothing found by its hash is lost or replaced. -/
def Grows (before after : RockDB) : Prop :=
  ∀ hash value, before.read .txToHash hash = some value → after.read .txToHash hash = some value

theorem Grows.refl (db : RockDB) : Grows db db := fun _ _ h => h

theorem not_filed_self (db : RockDB) (tx : Transaction) : ¬NewlyFiled db db tx := by
  rintro ⟨hash, hbefore, hafter⟩
  rw [hbefore] at hafter
  cases hafter

theorem Grows.filed_iff {a b c : RockDB} (hab : Grows a b) (hbc : Grows b c) (tx : Transaction) :
    NewlyFiled a c tx ↔ NewlyFiled a b tx ∨ NewlyFiled b c tx := by
  constructor
  · rintro ⟨hash, ha, hc⟩
    cases hb : b.read .txToHash hash with
    | none => exact Or.inr ⟨hash, hb, hc⟩
    | some value =>
      have hsame := (hbc hash value hb).symm.trans hc
      exact Or.inl ⟨hash, ha, hb.trans hsame⟩
  · rintro (⟨hash, ha, hb⟩ | ⟨hash, hb, hc⟩)
    · exact ⟨hash, ha, hbc hash _ hb⟩
    · refine ⟨hash, ?_, hc⟩
      cases ha : a.read .txToHash hash with
      | none => rfl
      | some value =>
        have hkept := hab hash value ha
        rw [hb] at hkept
        cases hkept

section Payments
variable [Blake3] {r : PaymentReading} {sender receiver : String} {amount : UInt64}
  {send : Transaction → Fallible Unit} {db db' : RockDB} {tx : Transaction}

/-- The key under which a transfer is looked for. -/
def transferHash (tx : Transaction) : List UInt8 :=
  (Blake3.xof64 (TxKind.transfer tx).serialize).toList

/-- The payment files this transaction. -/
structure Files (db : RockDB) (r : PaymentReading) (sender receiver : String) (amount : UInt64)
    (tx : Transaction) : Prop where
  built : Transaction.new r.stored sender receiver amount = .ok tx
  absent : db.read .txToHash (transferHash tx) = none
  key : succeeds (makeTsKey r.keySecs r.keyRandom) = true

/-- The payment sends this transaction. -/
structure Sends (db : RockDB) (r : PaymentReading) (sender receiver : String) (amount : UInt64)
    (tx : Transaction) : Prop where
  filed : succeeds (enqueueTransferToMempool r sender receiver amount db) = true
  built : Transaction.new r.broadcast sender receiver amount = .ok tx

omit [Blake3] in
theorem read_put_txToHash (db : RockDB) (key hash hash' value : List UInt8) :
    ((db.put .transaction key value).put .txToHash hash value).read .txToHash hash' =
      if hash = hash' then some value else db.read .txToHash hash' := by
  rw [RockDB.read_put]
  simp only [true_and]
  split
  · rfl
  · rw [RockDB.read_put_of_column_ne _ _ _ _ (by decide)]

theorem enqueue_eq (hsender : CanonicalWallet sender) (hreceiver : CanonicalWallet receiver) :
    enqueueTransferToMempool r sender receiver amount db = (do
      rejectIf (sender = receiver) (validationErr "Refusing self-transfer.")
      rejectIf (amount = 0) (validationErr "Amount must be > 0.")
      let tx ← Transaction.new r.stored sender receiver amount
      if (db.read .txToHash (transferHash tx)).isNone then do
        let tsKey ← makeTsKey r.keySecs r.keyRandom
        return (db.put .transaction (utf8 tsKey) (TxKind.transfer tx).serialize).put .txToHash
          (transferHash tx) (TxKind.transfer tx).serialize
      else return db) := by
  rw [enqueueTransferToMempool, hsender.checked, ok_bind, hreceiver.checked, ok_bind]
  rfl

/-- A transfer that is filed is the one built at the first reading, unless that is there already. -/
theorem enqueue_ok (hsender : CanonicalWallet sender) (hreceiver : CanonicalWallet receiver)
    (h : enqueueTransferToMempool r sender receiver amount db = .ok db') :
    Grows db db' ∧ ∀ tx, NewlyFiled db db' tx ↔ Files db r sender receiver amount tx := by
  rw [enqueue_eq hsender hreceiver] at h
  simp only [bind_eq_ok_iff] at h
  obtain ⟨_, -, _, -, stored, hstored, h⟩ := h
  split at h
  · rename_i habsent
    rw [Option.isNone_iff_eq_none] at habsent
    obtain ⟨key, hkey, hdb⟩ := (bind_eq_ok_iff _ _ _).mp h
    obtain rfl := (pure_eq_ok_iff _ _).mp hdb
    constructor
    · intro hash value hread
      rw [read_put_txToHash]
      split
      · rename_i heq
        rw [← heq, habsent] at hread
        cases hread
      · exact hread
    · intro tx
      constructor
      · rintro ⟨hash, hbefore, hafter⟩
        rw [read_put_txToHash] at hafter
        split at hafter
        · obtain rfl := transfer_serialize_inj (Option.some.inj hafter)
          exact ⟨hstored, habsent, (succeeds_iff _).mpr ⟨key, hkey⟩⟩
        · rw [hbefore] at hafter
          cases hafter
      · rintro ⟨hbuilt, -, -⟩
        obtain rfl := Except.ok.inj (hstored.symm.trans hbuilt)
        exact ⟨transferHash stored, habsent, by rw [read_put_txToHash, if_pos rfl]⟩
  · rename_i hpresent
    obtain rfl := (pure_eq_ok_iff _ _).mp h
    refine ⟨Grows.refl db, fun tx => ⟨fun hfiled => absurd hfiled (not_filed_self db tx), ?_⟩⟩
    rintro ⟨hbuilt, habsent, -⟩
    obtain rfl := Except.ok.inj (hstored.symm.trans hbuilt)
    exact absurd (Option.isNone_iff_eq_none.mpr habsent) hpresent

/-- What would be filed is filed. -/
theorem Files.enqueue (hsender : CanonicalWallet sender) (hreceiver : CanonicalWallet receiver)
    (h : Files db r sender receiver amount tx) :
    succeeds (enqueueTransferToMempool r sender receiver amount db) = true := by
  obtain ⟨hne, hamount, -⟩ := transaction_new_ok hsender hreceiver h.built
  obtain ⟨key, hkey⟩ := (succeeds_iff _).mp h.key
  rw [enqueue_eq hsender hreceiver, rejectIf_of_not _ hne, ok_bind, rejectIf_of_not _ hamount,
    ok_bind, h.built, ok_bind, if_pos (Option.isNone_iff_eq_none.mpr h.absent), hkey]
  rfl

theorem pay_run (s : SlotSession) : pay r send sender receiver amount s =
    match enqueueTransferToMempool r sender receiver amount s.db with
    | .error e => .error e s
    | .ok db =>
      match Transaction.new r.broadcast sender receiver amount with
      | .error e => .error e { s with db := db }
      | .ok tx => lift (send tx) { s with db := db, sent := s.sent ++ [tx] } := by
  rw [pay, bind_run, update]
  cases enqueueTransferToMempool r sender receiver amount s.db with
  | error e => rfl
  | ok db =>
    cases Transaction.new r.broadcast sender receiver amount with
    | error e => rfl
    | ok tx => rfl

/-- What a payment adds to the database and to what is sent. -/
structure Pays (r : PaymentReading) (sender receiver : String) (amount : UInt64)
    (s s' : SlotSession) : Prop where
  grows : Grows s.db s'.db
  filed : ∀ tx, NewlyFiled s.db s'.db tx ↔ Files s.db r sender receiver amount tx
  sent : ∀ tx, tx ∈ s'.sent ↔ tx ∈ s.sent ∨ Sends s.db r sender receiver amount tx

theorem pay_pays (hsender : CanonicalWallet sender) (hreceiver : CanonicalWallet receiver)
    (s : SlotSession) : Pays r sender receiver amount s
      (storeOf (pay r send sender receiver amount s)) := by
  rw [pay_run]
  cases henqueue : enqueueTransferToMempool r sender receiver amount s.db with
  | error e =>
    have hnot : succeeds (enqueueTransferToMempool r sender receiver amount s.db) ≠ true := by
      rw [henqueue]
      exact Bool.false_ne_true
    refine ⟨Grows.refl _, fun tx => ⟨fun h => absurd h (not_filed_self _ tx), fun h => ?_⟩,
      fun tx => ⟨Or.inl, fun h => h.elim id fun h => absurd h.filed hnot⟩⟩
    exact absurd (h.enqueue hsender hreceiver) hnot
  | ok db =>
    have hdone : succeeds (enqueueTransferToMempool r sender receiver amount s.db) = true :=
      (succeeds_iff _).mpr ⟨db, henqueue⟩
    obtain ⟨hgrows, hfiled⟩ := enqueue_ok hsender hreceiver henqueue
    cases hbroadcast : Transaction.new r.broadcast sender receiver amount with
    | error e =>
      refine ⟨hgrows, hfiled, fun tx => ⟨Or.inl, fun h => h.elim id fun h => ?_⟩⟩
      have hcontra := h.built
      rw [hbroadcast] at hcontra
      cases hcontra
    | ok broadcast =>
      simp only [storeOf_lift]
      refine ⟨hgrows, hfiled, fun tx => ?_⟩
      rw [List.mem_append, List.mem_singleton]
      apply or_congr_right
      constructor
      · rintro rfl
        exact ⟨hdone, hbroadcast⟩
      · intro h
        exact Except.ok.inj (h.built.symm.trans hbroadcast)

/-- The transactions of a payment, filed or sent. -/
def Makes (db : RockDB) (r : PaymentReading) (sender receiver : String) (amount : UInt64)
    (tx : Transaction) : Prop :=
  Files db r sender receiver amount tx ∨ Sends db r sender receiver amount tx

theorem Makes.built (hsender : CanonicalWallet sender) (hreceiver : CanonicalWallet receiver)
    (h : Makes db r sender receiver amount tx) :
    ∃ stamp, tx.Built stamp sender receiver amount := by
  rcases h with h | h
  · exact ⟨_, (transaction_new_ok hsender hreceiver h.built).2.2⟩
  · exact ⟨_, (transaction_new_ok hsender hreceiver h.built).2.2⟩

/-- Different transactions under one id. -/
def Transaction.Collide (tx tx' : Transaction) : Prop := tx ≠ tx' ∧ tx.idText = tx'.idText

/-- Where a payment both files and sends a transaction, the two are stamped in one second (or their
hashes collide). -/
def OneForm (db : RockDB) (r : PaymentReading) (sender receiver : String) (amount : UInt64) :
    Prop :=
  ∀ stored broadcast, Transaction.new r.stored sender receiver amount = .ok stored →
    Transaction.new r.broadcast sender receiver amount = .ok broadcast →
      db.read .txToHash (transferHash stored) = none →
        succeeds (makeTsKey r.keySecs r.keyRandom) = true →
          r.stored.stamped = r.broadcast.stamped ∨ stored.Collide broadcast

/-- The transactions of a payment have one id exactly where they take one form. -/
theorem makes_once_iff (hsender : CanonicalWallet sender) (hreceiver : CanonicalWallet receiver) :
    (∀ tx tx', Makes db r sender receiver amount tx → Makes db r sender receiver amount tx' →
      tx.id = tx'.id) ↔ OneForm db r sender receiver amount := by
  constructor
  · intro honce stored broadcast hstored hbroadcast habsent hkey
    have hfiles : Files db r sender receiver amount stored := ⟨hstored, habsent, hkey⟩
    have hid := honce stored broadcast (Or.inl hfiles)
      (Or.inr ⟨hfiles.enqueue hsender hreceiver, hbroadcast⟩)
    have hleft := (transaction_new_ok hsender hreceiver hstored).2.2
    have hright := (transaction_new_ok hsender hreceiver hbroadcast).2.2
    by_cases hsecond : r.stored.stamped = r.broadcast.stamped
    · exact Or.inl hsecond
    · rw [Transaction.id_of_valid hleft.valid, Transaction.id_of_valid hright.valid] at hid
      exact Or.inr ⟨hleft.ne_of_second hright hsecond, Except.ok.inj hid⟩
  · intro hform
    have hmixed : ∀ stored broadcast, Files db r sender receiver amount stored →
        Sends db r sender receiver amount broadcast → stored.id = broadcast.id := by
      intro stored broadcast hfiles hsends
      have hleft := (transaction_new_ok hsender hreceiver hfiles.built).2.2
      have hright := (transaction_new_ok hsender hreceiver hsends.built).2.2
      rcases hform stored broadcast hfiles.built hsends.built hfiles.absent hfiles.key with
        hsecond | hcollide
      · rw [hleft.eq_of_second hright hsecond]
      · rw [Transaction.id_of_valid hleft.valid, Transaction.id_of_valid hright.valid,
          hcollide.2]
    rintro tx tx' (h | h) (h' | h')
    · rw [Except.ok.inj (h.built.symm.trans h'.built)]
    · exact hmixed tx tx' h h'
    · exact (hmixed tx' tx h' h).symm
    · rw [Except.ok.inj (h.built.symm.trans h'.built)]

end Payments

/-! ### The stages of a play -/

/-- Neither the database nor what is sent has changed. -/
def Unmoved (s s' : SlotSession) : Prop := s'.db = s.db ∧ s'.sent = s.sent

/-- The transactions that a stage files or sends. -/
structure Adds (s s' : SlotSession) (made : Transaction → Prop) : Prop where
  grows : Grows s.db s'.db
  produced : ∀ tx, NewlyFiled s.db s'.db tx ∨ tx ∈ s'.sent ↔ tx ∈ s.sent ∨ made tx

theorem Unmoved.adds {s s' : SlotSession} (h : Unmoved s s') {made : Transaction → Prop}
    (hmade : ∀ tx, ¬made tx) : Adds s s' made := by
  refine ⟨?_, fun tx => ?_⟩
  · rw [h.1]
    exact Grows.refl s.db
  · rw [h.1, h.2]
    exact ⟨fun hor => Or.inl (hor.resolve_left (not_filed_self s.db tx)),
      fun hor => Or.inr (hor.resolve_right (hmade tx))⟩

theorem Adds.trans {s s' s'' : SlotSession} {made made' : Transaction → Prop}
    (h : Adds s s' made) (h' : Adds s' s'' made') :
    Adds s s'' (fun tx => made tx ∨ made' tx) := by
  refine ⟨fun hash value hread => h'.grows hash value (h.grows hash value hread), fun tx => ?_⟩
  calc NewlyFiled s.db s''.db tx ∨ tx ∈ s''.sent
      ↔ NewlyFiled s.db s'.db tx ∨ (NewlyFiled s'.db s''.db tx ∨ tx ∈ s''.sent) := by
        rw [h.grows.filed_iff h'.grows, or_assoc]
    _ ↔ (NewlyFiled s.db s'.db tx ∨ tx ∈ s'.sent) ∨ made' tx := by
        rw [h'.produced, or_assoc]
    _ ↔ tx ∈ s.sent ∨ (made tx ∨ made' tx) := by
        rw [h.produced, or_assoc]

theorem Adds.congr {s s' : SlotSession} {made made' : Transaction → Prop} (h : Adds s s' made)
    (hmade : ∀ tx, made tx ↔ made' tx) : Adds s s' made' :=
  ⟨h.grows, fun tx => (h.produced tx).trans (or_congr_right (hmade tx))⟩

theorem Pays.adds [Blake3] {r : PaymentReading} {sender receiver : String} {amount : UInt64}
    {s s' : SlotSession} (h : Pays r sender receiver amount s s') :
    Adds s s' (Makes s.db r sender receiver amount) := by
  refine ⟨h.grows, fun tx => ?_⟩
  rw [h.filed, h.sent, Makes, or_left_comm]

theorem ask_keeps {α : Type} (p : Prompt α) (s : SlotSession) : Preserves (Unmoved s) (ask p) := by
  intro s' hs'
  unfold ask
  cases p s'.lines with
  | ok pair => exact hs'
  | error e => exact hs'

theorem ask_unmoved {α : Type} {p : Prompt α} {s s' : SlotSession} {a : α}
    (h : ask p s = .ok a s') : Unmoved s s' := by
  have hkeep := ask_keeps p s s ⟨rfl, rfl⟩
  rwa [h] at hkeep

theorem enforceCooldown_keeps (spinMillis : Int64) (player : String) (s : SlotSession) :
    Preserves (Unmoved s) (enforceCooldown spinMillis player) := by
  apply preserves_update
  intro s₁ s₂ hs₁ h
  simp only [bind_eq_ok_iff, pure_eq_ok_iff] at h
  obtain ⟨_, -, _, -, rfl⟩ := h
  exact hs₁

theorem readEntryFee_fixed {entryFeeMicro fee : UInt64} {lines lines' : List PromptLine}
    (h : readEntryFee entryFeeMicro lines = .ok (fee, lines')) : fee = entryFeeMicro := by
  induction lines with
  | nil =>
    rw [readEntryFee] at h
    exact (congrArg Prod.fst (Except.ok.inj h)).symm
  | cons line lines ih =>
    simp only [readEntryFee, bind_eq_ok_iff] at h
    obtain ⟨raw, -, s, -, h⟩ := h
    split at h
    · exact (congrArg Prod.fst (Except.ok.inj h)).symm
    · split at h
      · exact ih h
      · split at h
        · exact ih h
        · rename_i hfee
          rw [not_not] at hfee
          exact (congrArg Prod.fst (Except.ok.inj h)).symm.trans hfee

namespace SlotMachineGame
variable {game : SlotMachineGame} {ctx : SlotMachineContext}

theorem seat_keeps (game : SlotMachineGame) (ctx : SlotMachineContext) (s : SlotSession) :
    Preserves (Unmoved s) (game.seat ctx) := by
  refine preserves_bind (preserves_lift _) fun houseWallet => ?_
  refine preserves_bind (ask_keeps _ s) fun wants => ?_
  split
  · exact preserves_pure _
  refine preserves_bind (ask_keeps _ s) fun player => ?_
  refine preserves_bind (preserves_lift _) fun _ => ?_
  refine preserves_bind (ask_keeps _ s) fun feeMicro => ?_
  refine preserves_bind (enforceCooldown_keeps _ _ s) fun _ => ?_
  refine preserves_bind (preserves_lift _) fun _ => ?_
  split
  · exact preserves_pure _
  split
  · exact preserves_pure _
  refine preserves_bind (ask_keeps _ s) fun confirmed => ?_
  repeat
    split
    · exact preserves_pure _
  exact preserves_pure _

/-- Who is seated: a canonical player other than the house, for exactly the entry fee. -/
structure Admitted (game : SlotMachineGame) (s s' : SlotSession) (player house : String)
    (fee : UInt64) : Prop where
  unmoved : Unmoved s s'
  canonPlayer : CanonicalWallet player
  canonHouse : CanonicalWallet house
  configured : house = game.cfg.houseAddress
  distinct : player ≠ house
  exact : fee = game.cfg.entryFeeMicro

theorem readWallet_canonical {cap : ℕ} {s s' : SlotSession} {wallet : String}
    (h : ask (readWalletCapped cap) s = .ok wallet s') : CanonicalWallet wallet := by
  unfold ask at h
  split at h
  · rename_i hread
    cases h
    simp only [readWalletCapped, bind_eq_ok_iff] at hread
    obtain ⟨⟨raw, rest⟩, -, wallet, hcanon, hsame⟩ := hread
    cases hsame
    exact canonWalletIdChecked_canonical hcanon
  · cases h

theorem askEntryFee_fixed {entryFeeMicro fee : UInt64} {s s' : SlotSession}
    (h : ask (readEntryFee entryFeeMicro) s = .ok fee s') : fee = entryFeeMicro := by
  unfold ask at h
  split at h
  · rename_i hread
    cases h
    exact readEntryFee_fixed hread
  · cases h

theorem canonicalHouseAddress_ok {house : String} (h : game.canonicalHouseAddress = .ok house) :
    CanonicalWallet house ∧ house = game.cfg.houseAddress := by
  simp only [canonicalHouseAddress, bind_eq_ok_iff, rejectIf_eq_ok_iff, pure_eq_ok_iff,
    not_not] at h
  obtain ⟨canon, hcanon, _, hsame, _, -, _, -, rfl⟩ := h
  exact ⟨canonWalletIdChecked_canonical hcanon, hsame⟩

theorem seat_ok {s s' : SlotSession} {player house : String} {fee : UInt64}
    (h : game.seat ctx s = .ok (some (player, house, fee)) s') :
    Admitted game s s' player house fee := by
  have hunmoved : Unmoved s s' := by
    have hkeep := seat_keeps game ctx s s ⟨rfl, rfl⟩
    rwa [h] at hkeep
  rw [seat, run_bind_eq_ok_iff] at h
  obtain ⟨house', s₁, hlift, h⟩ := h
  obtain ⟨hhouse, -⟩ := (lift_eq_ok_iff _ _ _ _).mp hlift
  obtain ⟨hcanon, hconfigured⟩ := canonicalHouseAddress_ok hhouse
  obtain ⟨wants, s₂, -, h⟩ := (run_bind_eq_ok_iff _ _ _ _ _).mp h
  split at h
  · cases h
  obtain ⟨player', s₃, hplayer, h⟩ := (run_bind_eq_ok_iff _ _ _ _ _).mp h
  obtain ⟨_, s₄, hreject, h⟩ := (run_bind_eq_ok_iff _ _ _ _ _).mp h
  obtain ⟨hother, -⟩ := (lift_eq_ok_iff _ _ _ _).mp hreject
  obtain ⟨fee', s₅, hfee, h⟩ := (run_bind_eq_ok_iff _ _ _ _ _).mp h
  obtain ⟨_, s₆, -, h⟩ := (run_bind_eq_ok_iff _ _ _ _ _).mp h
  obtain ⟨_, s₇, -, h⟩ := (run_bind_eq_ok_iff _ _ _ _ _).mp h
  split at h
  · cases h
  split at h
  · cases h
  obtain ⟨confirmed, s₈, -, h⟩ := (run_bind_eq_ok_iff _ _ _ _ _).mp h
  repeat
    split at h
    · cases h
  cases h
  exact ⟨hunmoved, readWallet_canonical hplayer, hcanon, hconfigured,
    (rejectIf_eq_ok_iff _ _ _).mp hother, askEntryFee_fixed hfee⟩

section Play
variable [Blake3]

/-- A prize that the house pays: the guess was read after the fee had been paid. -/
structure PrizeDue (ctx : SlotMachineContext) (s s' : SlotSession) (player house : String)
    (fee prize : UInt64) (guess : UInt32) : Prop where
  read : ∃ s₁, pay ctx.fee (ctx.sendNetCmd 0) player house fee s = .ok () s₁ ∧
    ask (readGuess1To100 maxGuessInput maxAttempts) s₁ = .ok guess s'
  won : prize = payoutFromGuess (genTarget1To100 ctx.randomTarget) guess
  positive : 0 < prize
  covered : ¬ctx.getBalanceMicro 4 house < prize

/-- The transactions of the prize. -/
def PrizeMade (ctx : SlotMachineContext) (s : SlotSession) (player house : String) (fee : UInt64)
    (tx : Transaction) : Prop :=
  ∃ s' prize guess, PrizeDue ctx s s' player house fee prize guess ∧
    Makes s'.db ctx.payout house player prize tx

theorem PrizeDue.unique {s s' s'' : SlotSession} {player house : String} {fee prize prize' : UInt64}
    {guess guess' : UInt32} (h : PrizeDue ctx s s' player house fee prize guess)
    (h' : PrizeDue ctx s s'' player house fee prize' guess') : s' = s'' ∧ prize = prize' := by
  obtain ⟨s₁, hpay, hguess⟩ := h.read
  obtain ⟨s₂, hpay', hguess'⟩ := h'.read
  rw [hpay] at hpay'
  cases hpay'
  rw [hguess] at hguess'
  cases hguess'
  exact ⟨rfl, h.won.trans h'.won.symm⟩

theorem guessAndPay_adds {s s₁ : SlotSession} {player house : String} {fee : UInt64}
    (hplayer : CanonicalWallet player) (hhouse : CanonicalWallet house)
    (hpay : pay ctx.fee (ctx.sendNetCmd 0) player house fee s = .ok () s₁) :
    Adds s₁ (storeOf (guessAndPay ctx player house s₁)) (PrizeMade ctx s player house fee) := by
  have hread : ∀ {s' : SlotSession} {prize : UInt64} {guess : UInt32},
      PrizeDue ctx s s' player house fee prize guess →
        ask (readGuess1To100 maxGuessInput maxAttempts) s₁ = .ok guess s' := by
    intro s' prize guess hdue
    obtain ⟨s₂, hpay', hguess⟩ := hdue.read
    rw [hpay] at hpay'
    cases hpay'
    exact hguess
  rw [guessAndPay, bind_run]
  cases hguess : ask (readGuess1To100 maxGuessInput maxAttempts) s₁ with
  | error e s' =>
    have hkeep := ask_keeps (readGuess1To100 maxGuessInput maxAttempts) s₁ s₁ ⟨rfl, rfl⟩
    rw [hguess] at hkeep
    apply Unmoved.adds hkeep
    rintro tx ⟨s'', prize, guess, hdue, -⟩
    have hcontra := hread hdue
    rw [hguess] at hcontra
    cases hcontra
  | ok guess s' =>
    have hunmoved := ask_unmoved hguess
    have honly : ∀ {s'' : SlotSession} {prize : UInt64} {guess' : UInt32},
        PrizeDue ctx s s'' player house fee prize guess' →
          s'' = s' ∧ prize = payoutFromGuess (genTarget1To100 ctx.randomTarget) guess := by
      intro s'' prize guess' hdue
      have hsame := hread hdue
      rw [hguess] at hsame
      cases hsame
      exact ⟨rfl, hdue.won⟩
    have hnone : (¬0 < payoutFromGuess (genTarget1To100 ctx.randomTarget) guess ∨
        ctx.getBalanceMicro 4 house < payoutFromGuess (genTarget1To100 ctx.randomTarget) guess) →
          ∀ tx, ¬PrizeMade ctx s player house fee tx := by
      rintro hnot tx ⟨s'', prize, guess', hdue, -⟩
      obtain ⟨-, rfl⟩ := honly hdue
      rcases hnot with hnot | hnot
      · exact hnot hdue.positive
      · exact hdue.covered hnot
    simp only
    split
    · rename_i hpositive
      split
      · rename_i hshort
        exact hunmoved.adds (hnone (Or.inr hshort))
      · rename_i hcovered
        refine ((hunmoved.adds (fun _ h => h)).trans
          (pay_pays hhouse hplayer s').adds).congr fun tx => ?_
        rw [false_or]
        constructor
        · intro hmakes
          exact ⟨s', _, guess, ⟨⟨s₁, hpay, hguess⟩, rfl, hpositive, hcovered⟩, hmakes⟩
        · rintro ⟨s'', prize, guess', hdue, hmakes⟩
          obtain ⟨rfl, rfl⟩ := honly hdue
          exact hmakes
    · rename_i hpositive
      exact hunmoved.adds (hnone (Or.inl hpositive))

theorem play_run (s : SlotSession) : game.playOnceInteractive ctx s =
    match game.seat ctx s with
    | .error e s₁ => .error e s₁
    | .ok none s₁ => .ok () s₁
    | .ok (some (player, house, fee)) s₁ =>
      match pay ctx.fee (ctx.sendNetCmd 0) player house fee s₁ with
      | .error e s₂ => .error e s₂
      | .ok _ s₂ => guessAndPay ctx player house s₂ := by
  rw [playOnceInteractive, bind_run]
  cases game.seat ctx s with
  | error e s₁ => rfl
  | ok seated s₁ =>
    cases seated with
    | none => rfl
    | some play =>
      obtain ⟨player, house, fee⟩ := play
      dsimp only
      rw [bind_run]
      cases pay ctx.fee (ctx.sendNetCmd 0) player house fee s₁ with
      | error e s₂ => rfl
      | ok _ s₂ => rfl

/-- The transactions of a play are those of its fee and those of its prize. -/
theorem play_adds (game : SlotMachineGame) (ctx : SlotMachineContext) (s : SlotSession) :
    Adds s (storeOf (game.playOnceInteractive ctx s)) fun tx =>
      ∃ s₁ player house fee, game.seat ctx s = .ok (some (player, house, fee)) s₁ ∧
        (Makes s₁.db ctx.fee player house fee tx ∨ PrizeMade ctx s₁ player house fee tx) := by
  rw [play_run]
  have hkeep := seat_keeps game ctx s s ⟨rfl, rfl⟩
  cases hseat : game.seat ctx s with
  | error e s₁ =>
    rw [hseat] at hkeep
    exact Unmoved.adds hkeep fun tx ⟨_, _, _, _, h, _⟩ => (nomatch h)
  | ok seated s₁ =>
    rw [hseat] at hkeep
    cases seated with
    | none => exact Unmoved.adds hkeep fun tx ⟨_, _, _, _, h, _⟩ => (nomatch h)
    | some play =>
      obtain ⟨player, house, fee⟩ := play
      have hin := seat_ok hseat
      have hfee : Adds s₁ (storeOf (pay ctx.fee (ctx.sendNetCmd 0) player house fee s₁))
          (Makes s₁.db ctx.fee player house fee) :=
        (pay_pays hin.canonPlayer hin.canonHouse s₁).adds
      have hstart := hin.unmoved.adds (fun (_ : Transaction) (h : False) => h)
      dsimp only
      cases hpay : pay ctx.fee (ctx.sendNetCmd 0) player house fee s₁ with
      | error e s₂ =>
        rw [hpay] at hfee
        refine (hstart.trans hfee).congr fun tx => ?_
        rw [false_or]
        constructor
        · intro hmakes
          exact ⟨s₁, player, house, fee, rfl, Or.inl hmakes⟩
        · rintro ⟨_, _, _, _, h, hmade⟩
          cases h
          refine hmade.resolve_right ?_
          rintro ⟨_, _, _, hdue, -⟩
          obtain ⟨_, hcontra, -⟩ := hdue.read
          rw [hpay] at hcontra
          cases hcontra
      | ok _ s₂ =>
        rw [hpay] at hfee
        have hprize := guessAndPay_adds hin.canonPlayer hin.canonHouse hpay
        refine ((hstart.trans hfee).trans hprize).congr fun tx => ?_
        rw [false_or]
        constructor
        · intro hmade
          exact ⟨s₁, player, house, fee, rfl, hmade⟩
        · rintro ⟨_, _, _, _, h, hmade⟩
          cases h
          exact hmade

end Play

end SlotMachineGame

/-! ### Once -/

section Once
variable [Blake3]

/-- A transaction that the play has filed, or handed to the network. -/
def Produced (db : RockDB) (after : SlotSession) (tx : Transaction) : Prop :=
  NewlyFiled db after.db tx ∨ tx ∈ after.sent

/-- No two transactions of the play between the same parties have different ids. -/
def PaidOnce (db : RockDB) (after : SlotSession) : Prop :=
  ∀ tx tx', Produced db after tx → Produced db after tx' → tx.sender = tx'.sender →
    tx.receiver = tx'.receiver → tx.id = tx'.id

/-- A transfer of this amount between these wallets. -/
structure Transaction.Moves (tx : Transaction) (sender receiver : String) (amount : UInt64) :
    Prop where
  sender : tx.sender.toList = utf8 sender
  receiver : tx.receiver.toList = utf8 receiver
  amount : tx.amount = amount

theorem Makes.moves {db : RockDB} {r : PaymentReading} {sender receiver : String} {amount : UInt64}
    {tx : Transaction} (hsender : CanonicalWallet sender) (hreceiver : CanonicalWallet receiver)
    (h : Makes db r sender receiver amount tx) : tx.Moves sender receiver amount := by
  obtain ⟨stamp, hbuilt⟩ := h.built hsender hreceiver
  exact ⟨hbuilt.sender, hbuilt.receiver, hbuilt.amount⟩

/-- Nothing but the fee goes to the house, and nothing but the prize to the player; each is of one
id exactly where the transaction that is filed and the one that is sent are stamped in one
second. -/
theorem play_moves_once (game : SlotMachineGame) (ctx : SlotMachineContext)
    (lines : List PromptLine) (spins : ExtTreeMap String UInt64) (db : RockDB) :
    let start : SlotSession := ⟨lines, spins, db, []⟩
    let after := storeOf (game.playOnceInteractive ctx start)
    (∀ tx, Produced db after tx → ∃ s player house fee,
      game.seat ctx start = .ok (some (player, house, fee)) s ∧ house = game.cfg.houseAddress ∧
        player ≠ house ∧ (tx.Moves player house game.cfg.entryFeeMicro ∨
          ∃ s' prize guess, SlotMachineGame.PrizeDue ctx s s' player house fee prize guess ∧
            tx.Moves house player (SlotMachineGame.payoutFromGuess
              (SlotMachineGame.genTarget1To100 ctx.randomTarget) guess))) ∧
    (PaidOnce db after ↔ ∀ s player house fee,
      game.seat ctx start = .ok (some (player, house, fee)) s →
        OneForm s.db ctx.fee player house fee ∧ ∀ s' prize guess,
          SlotMachineGame.PrizeDue ctx s s' player house fee prize guess →
            OneForm s'.db ctx.payout house player prize) := by
  intro start after
  have hproduced : ∀ tx, Produced db after tx ↔ ∃ s player house fee,
      game.seat ctx start = .ok (some (player, house, fee)) s ∧
        (Makes s.db ctx.fee player house fee tx ∨
          SlotMachineGame.PrizeMade ctx s player house fee tx) := by
    intro tx
    have hadds := (SlotMachineGame.play_adds game ctx start).produced tx
    rwa [or_iff_right (show tx ∉ start.sent from List.not_mem_nil)] at hadds
  refine ⟨?_, ?_, ?_⟩
  · intro tx htx
    obtain ⟨s, player, house, fee, hseat, hmade⟩ := (hproduced tx).mp htx
    have hin := SlotMachineGame.seat_ok hseat
    refine ⟨s, player, house, fee, hseat, hin.configured, hin.distinct, ?_⟩
    rcases hmade with hmakes | ⟨s', prize, guess, hdue, hmakes⟩
    · rw [← hin.exact]
      exact Or.inl (hmakes.moves hin.canonPlayer hin.canonHouse)
    · have hmoves := hmakes.moves hin.canonHouse hin.canonPlayer
      rw [hdue.won] at hmoves
      exact Or.inr ⟨s', prize, guess, hdue, hmoves⟩
  · intro honce s player house fee hseat
    have hin := SlotMachineGame.seat_ok hseat
    -- Transactions of one payment have the same parties.
    have hparties : ∀ {tx tx' : Transaction} {sender receiver : String} {amount : UInt64},
        tx.Moves sender receiver amount → tx'.Moves sender receiver amount →
          tx.sender = tx'.sender ∧ tx.receiver = tx'.receiver := fun h h' =>
      ⟨Subtype.ext (h.sender.trans h'.sender.symm), Subtype.ext (h.receiver.trans h'.receiver.symm)⟩
    constructor
    · apply (makes_once_iff hin.canonPlayer hin.canonHouse).mp
      intro tx tx' h h'
      obtain ⟨hs, hr⟩ := hparties (h.moves hin.canonPlayer hin.canonHouse)
        (h'.moves hin.canonPlayer hin.canonHouse)
      exact honce tx tx' ((hproduced tx).mpr ⟨s, player, house, fee, hseat, Or.inl h⟩)
        ((hproduced tx').mpr ⟨s, player, house, fee, hseat, Or.inl h'⟩) hs hr
    · intro s' prize guess hdue
      apply (makes_once_iff hin.canonHouse hin.canonPlayer).mp
      intro tx tx' h h'
      obtain ⟨hs, hr⟩ := hparties (h.moves hin.canonHouse hin.canonPlayer)
        (h'.moves hin.canonHouse hin.canonPlayer)
      exact honce tx tx'
        ((hproduced tx).mpr ⟨s, player, house, fee, hseat, Or.inr ⟨s', prize, guess, hdue, h⟩⟩)
        ((hproduced tx').mpr ⟨s, player, house, fee, hseat, Or.inr ⟨s', prize, guess, hdue, h'⟩⟩)
        hs hr
  · intro hform tx tx' htx htx' hsender _
    obtain ⟨s, player, house, fee, hseat, hmade⟩ := (hproduced tx).mp htx
    obtain ⟨_, _, _, _, hseat', hmade'⟩ := (hproduced tx').mp htx'
    rw [hseat] at hseat'
    cases hseat'
    have hin := SlotMachineGame.seat_ok hseat
    obtain ⟨hfee, hprize⟩ := hform s player house fee hseat
    -- The fee comes from the player and the prize from the house.
    have hmixed : ∀ {a b : Transaction} {n m : UInt64}, a.Moves player house n →
        b.Moves house player m → a.sender ≠ b.sender := by
      intro a b n m ha hb heq
      apply hin.distinct
      apply utf8_injective
      rw [← ha.sender, ← hb.sender, heq]
    rcases hmade with h | ⟨s₁, prize, guess, hdue, h⟩
    · rcases hmade' with h' | ⟨s₂, prize', guess', hdue', h'⟩
      · exact (makes_once_iff hin.canonPlayer hin.canonHouse).mpr hfee tx tx' h h'
      · exact absurd hsender (hmixed (h.moves hin.canonPlayer hin.canonHouse)
          (h'.moves hin.canonHouse hin.canonPlayer))
    · rcases hmade' with h' | ⟨s₂, prize', guess', hdue', h'⟩
      · exact absurd hsender.symm (hmixed (h'.moves hin.canonPlayer hin.canonHouse)
          (h.moves hin.canonHouse hin.canonPlayer))
      · obtain ⟨rfl, rfl⟩ := hdue.unique hdue'
        exact (makes_once_iff hin.canonHouse hin.canonPlayer).mpr
          (hprize s₁ prize guess hdue) tx tx' h h'

end Once

namespace Sample

@[irreducible] def slotPlayer : String := String.ofList ('r' :: List.replicate 128 '1')

/-- The clock moves on by a second between the fee that is filed and the fee that is sent. -/
def slotContext : SlotMachineContext where
  getBalanceMicro _ _ := 1000000000000
  sendNetCmd _ _ := .ok ()
  proveWalletOwnership _ := .ok ()
  spinMillis := 1700000000000
  randomTarget := 0
  fee := ⟨⟨1700000000, 1700000000⟩, 1700000000, 7, ⟨1700000001, 1700000001⟩⟩
  payout := ⟨⟨1700000002, 1700000002⟩, 1700000002, 8, ⟨1700000002, 1700000002⟩⟩

def slotStart : SlotSession :=
  ⟨[.ok "y", .ok slotPlayer, .ok "", .ok "y", .ok "50"], ∅, RockDB.empty, []⟩

/-- The digits of the house's wallet id. -/
def slotHouseBytes : List UInt8 :=
  [174, 101, 127, 116, 221, 12, 218, 33, 68, 195, 150, 197, 78, 96, 196, 112, 56, 102, 249, 194,
    180, 134, 170, 9, 37, 210, 175, 0, 141, 226, 17, 21, 227, 170, 50, 21, 64, 144, 21, 161, 148,
    78, 239, 241, 71, 72, 150, 178, 97, 245, 37, 100, 167, 87, 187, 39, 158, 86, 236, 170, 18,
    51, 25, 231]

theorem slotHouse_canonical : CanonicalWallet slotHouseAddress := by
  have heq : slotHouseAddress = String.ofList ('r' :: (Blake3.toHex slotHouseBytes).toList) := by
    apply utf8_injective
    rw [utf8_eq (String.ofList _), String.toList_ofList, List.flatMap_cons, ← utf8_eq]
    decide +kernel
  rw [heq]
  exact canonicalWallet_of_digits (by decide) String.toList_ofList

theorem slotPlayer_canonical : CanonicalWallet slotPlayer := by
  have hchecked : canonWalletIdChecked slotPlayer = .ok slotPlayer := by decide +kernel
  exact canonWalletIdChecked_canonical hchecked

def slotFee (secs : UInt64) : Transaction where
  sender := ⟨utf8 slotPlayer, slotPlayer_canonical.len⟩
  receiver := ⟨utf8 slotHouseAddress, slotHouse_canonical.len⟩
  amount := slotEntryFeeMicro
  timestamp := secs

theorem slot_distinct : slotPlayer ≠ slotHouseAddress := by decide +kernel

theorem slotFee_new {clock : Int64} {secs : UInt64} (hclock : nowUnixSecsRuntime clock = .ok secs)
    (hskew : validateRuntimeFutureSkewSecsDefault "Transaction.timestamp" secs secs = .ok ()) :
    Transaction.new ⟨clock, clock⟩ slotPlayer slotHouseAddress slotEntryFeeMicro =
      .ok (slotFee secs) := by
  have hamount : slotEntryFeeMicro ≠ 0 := by decide
  have hsender : (slotFee secs).sender.toList = utf8 slotPlayer := List.Vector.toList_mk _ _
  have hreceiver : (slotFee secs).receiver.toList = utf8 slotHouseAddress :=
    List.Vector.toList_mk _ _
  exact transaction_new_of slotPlayer_canonical slotHouse_canonical slot_distinct hamount hsender
    hreceiver rfl hclock hclock hskew

theorem slotFee_stored : Transaction.new slotContext.fee.stored slotPlayer slotHouseAddress
    slotEntryFeeMicro = .ok (slotFee 1700000000) :=
  slotFee_new (by decide +kernel) (by decide +kernel)

theorem slotFee_broadcast : Transaction.new slotContext.fee.broadcast slotPlayer slotHouseAddress
    slotEntryFeeMicro = .ok (slotFee 1700000001) :=
  slotFee_new (by decide +kernel) (by decide +kernel)

theorem slot_seated : ∃ s, ({} : SlotMachineGame).seat slotContext slotStart =
    .ok (some (slotPlayer, slotHouseAddress, slotEntryFeeMicro)) s := by
  have hhouse : ({} : SlotMachineGame).canonicalHouseAddress = .ok slotHouseAddress := by
    rw [SlotMachineGame.canonicalHouseAddress]
    simp only [slotHouse_canonical.checked, ok_bind, rejectIf_of_not _ (not_not_intro rfl)]
    rfl
  have hseated : (({} : SlotMachineGame).seat slotContext).run' slotStart =
      some (some (slotPlayer, slotHouseAddress, slotEntryFeeMicro)) := by
    rw [EStateM.run', SlotMachineGame.seat, EStateM.run, bind_run, hhouse]
    decide +kernel
  rw [EStateM.run', EStateM.run] at hseated
  split at hseated
  · rename_i s hseat
    rw [Option.some.inj hseated] at hseat
    exact ⟨s, hseat⟩
  · cases hseated

end Sample

/-- A node gets the fee of one play under two ids. -/
theorem fee_sent_twice : ¬@PaidOnce Blake3.reference RockDB.empty
    (storeOf (@SlotMachineGame.playOnceInteractive Blake3.reference {} Sample.slotContext
      Sample.slotStart)) := by
  intro honce
  obtain ⟨s, hseat⟩ := Sample.slot_seated
  have hin := SlotMachineGame.seat_ok hseat
  have hproduced := fun tx hmakes =>
    ((@SlotMachineGame.play_adds Blake3.reference _ _ Sample.slotStart).produced tx).mpr
      (Or.inr ⟨s, _, _, _, hseat, Or.inl hmakes⟩)
  rw [hin.unmoved.1] at hproduced
  have hfiles : @Files Blake3.reference RockDB.empty Sample.slotContext.fee Sample.slotPlayer
      slotHouseAddress slotEntryFeeMicro (Sample.slotFee 1700000000) :=
    @Files.mk Blake3.reference _ _ _ _ _ _ Sample.slotFee_stored rfl (by decide +kernel)
  have hsends : @Sends Blake3.reference RockDB.empty Sample.slotContext.fee Sample.slotPlayer
      slotHouseAddress slotEntryFeeMicro (Sample.slotFee 1700000001) :=
    @Sends.mk Blake3.reference _ _ _ _ _ _
      (@Files.enqueue Blake3.reference _ _ _ _ _ _ hin.canonPlayer hin.canonHouse hfiles)
      Sample.slotFee_broadcast
  have hid := honce _ _ (hproduced _ (Or.inl hfiles)) (hproduced _ (Or.inr hsends)) rfl rfl
  have hstored := (transaction_new_ok hin.canonPlayer hin.canonHouse Sample.slotFee_stored).2.2
  have hbroadcast :=
    (transaction_new_ok hin.canonPlayer hin.canonHouse Sample.slotFee_broadcast).2.2
  rw [@Transaction.id_of_valid Blake3.reference _ hstored.valid,
    @Transaction.id_of_valid Blake3.reference _ hbroadcast.valid] at hid
  revert hid
  decide +kernel

end Remzar
