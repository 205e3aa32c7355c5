import Mathlib.Algebra.Order.Ring.Nat
import Mathlib.Data.Vector.Defs

/-! The hash function is a parameter: results hold for every function from bytes to
64 bytes. `Blake3.reference` is the published BLAKE3 function, used to evaluate the
parameter on concrete inputs. Four 32-bit words are kept in the 64-bit lanes of one
number, as vector implementations do. -/

/-- Extendable output of the hash, cut at 64 bytes. -/
class Blake3 where
  xof64 : List UInt8 → List.Vector UInt8 64

namespace Blake3

/-- `blake3::hash`: the first 32 bytes of the extendable output. -/
def hash [Blake3] (bytes : List UInt8) : List.Vector UInt8 32 :=
  (xof64 bytes).take 32

def hexDigit (n : ℕ) : Char := Nat.digitChar n

/-- Lowercase hexadecimal. -/
def toHex (bytes : List UInt8) : String :=
  String.ofList (bytes.flatMap fun b => [hexDigit (b.toNat/16), hexDigit (b.toNat%16)])

def laneMask : ℕ := 0x00000000FFFFFFFF00000000FFFFFFFF00000000FFFFFFFF00000000FFFFFFFF

def lanes (x0 x1 x2 x3 : ℕ) : ℕ :=
  Nat.lor (Nat.lor x0 (Nat.shiftLeft x1 64))
    (Nat.lor (Nat.shiftLeft x2 128) (Nat.shiftLeft x3 192))

def addLanes (x y : ℕ) : ℕ := Nat.land (Nat.add x y) laneMask

/-- Every lane's word rotated right by `n` bits. -/
def rotrLanes (x n : ℕ) : ℕ :=
  Nat.land (Nat.lor (Nat.shiftRight x n) (Nat.shiftLeft x (Nat.sub 32 n))) laneMask

/-- The four lanes themselves rotated, `n` a multiple of 64. -/
def turnLanes (x n : ℕ) : ℕ :=
  Nat.mod (Nat.lor (Nat.shiftRight x n) (Nat.shiftLeft x (Nat.sub 256 n)))
    0x10000000000000000000000000000000000000000000000000000000000000000

structure Rows where
  a : ℕ
  b : ℕ
  c : ℕ
  d : ℕ

def mix (s : Rows) (mx my : ℕ) : Rows :=
  match s with
  | ⟨a, b, c, d⟩ =>
    let a := addLanes (Nat.add a b) mx
    let d := rotrLanes (Nat.xor d a) 16
    let c := addLanes c d
    let b := rotrLanes (Nat.xor b c) 12
    let a := addLanes (Nat.add a b) my
    let d := rotrLanes (Nat.xor d a) 8
    let c := addLanes c d
    let b := rotrLanes (Nat.xor b c) 7
    ⟨a, b, c, d⟩

def diagonalize : Rows → Rows
  | ⟨a, b, c, d⟩ => ⟨a, turnLanes b 64, turnLanes c 128, turnLanes d 192⟩

def undiagonalize : Rows → Rows
  | ⟨a, b, c, d⟩ => ⟨a, turnLanes b 192, turnLanes c 128, turnLanes d 64⟩

def rounds : ℕ → Rows → List ℕ → Rows
  | n+1, s, [m0,m1,m2,m3,m4,m5,m6,m7,m8,m9,m10,m11,m12,m13,m14,m15] =>
    let s := mix s (lanes m0 m2 m4 m6) (lanes m1 m3 m5 m7)
    let s := undiagonalize
      (mix (diagonalize s) (lanes m8 m10 m12 m14) (lanes m9 m11 m13 m15))
    rounds n s [m2,m6,m3,m10,m7,m0,m4,m13,m1,m11,m12,m5,m9,m14,m15,m8]
  | _, s, _ => s

def word (b0 b1 b2 b3 : UInt8) : ℕ :=
  Nat.add (Nat.add b0.toNat (Nat.mul 0x100 b1.toNat))
    (Nat.add (Nat.mul 0x10000 b2.toNat) (Nat.mul 0x1000000 b3.toNat))

def wordsOf : ℕ → List UInt8 → List ℕ
  | 0, _ => []
  | n+1, b0 :: b1 :: b2 :: b3 :: bytes => word b0 b1 b2 b3 :: wordsOf n bytes
  | n+1, [b0, b1, b2] => word b0 b1 b2 0 :: wordsOf n []
  | n+1, [b0, b1] => word b0 b1 0 0 :: wordsOf n []
  | n+1, [b0] => word b0 0 0 0 :: wordsOf n []
  | n+1, [] => 0 :: wordsOf n []

/-- The first and last four words of the initial chaining value. -/
def iv : ℕ × ℕ :=
  (lanes 0x6A09E667 0xBB67AE85 0x3C6EF372 0xA54FF53A,
    lanes 0x510E527F 0x9B05688C 0x1F83D9AB 0x5BE0CD19)

/-- The input of a compression; the root is compressed again with its own flag. -/
structure Node where
  cv : ℕ × ℕ
  block : List ℕ
  counter : ℕ
  blockLen : ℕ
  flags : ℕ

def Node.compress (n : Node) : (ℕ × ℕ) × (ℕ × ℕ) :=
  match rounds 7 ⟨n.cv.1, n.cv.2, iv.1,
      lanes (Nat.mod n.counter 4294967296) (Nat.div n.counter 4294967296) n.blockLen n.flags⟩
      n.block with
  | ⟨a, b, c, d⟩ => ((Nat.xor a c, Nat.xor b d), (Nat.xor c n.cv.1, Nat.xor d n.cv.2))

def Node.chain (n : Node) : ℕ × ℕ := n.compress.1

def lastNode (counter flags : ℕ) (cv : ℕ × ℕ) (bytes : List UInt8) : Node :=
  ⟨cv, wordsOf 16 bytes, counter, bytes.length, Nat.add flags 2⟩

/-- The blocks of one chunk; only the first carries the chunk-start flag. -/
def chunkNode (counter : ℕ) : ℕ → ℕ → ℕ × ℕ → List UInt8 → Node
  | 0, flags, cv, bytes => lastNode counter flags cv bytes
  | n+1, flags, cv, bytes =>
    match bytes.drop 64 with
    | [] => lastNode counter flags cv bytes
    | rest@(_ :: _) =>
      chunkNode counter n 0 (Node.chain ⟨cv, wordsOf 16 bytes, counter, 64, flags⟩) rest

def laneWords (x : ℕ) : List ℕ :=
  [Nat.mod x 4294967296, Nat.mod (Nat.shiftRight x 64) 4294967296,
    Nat.mod (Nat.shiftRight x 128) 4294967296, Nat.mod (Nat.shiftRight x 192) 4294967296]

def parentNode (l r : ℕ × ℕ) : Node :=
  ⟨iv, laneWords l.1 ++ laneWords l.2 ++ laneWords r.1 ++ laneWords r.2, 0, 64, 4⟩

/-- The left subtree holds the largest power of two of chunks that leaves some bytes. -/
def treeNode : ℕ → ℕ → List UInt8 → Node
  | 0, first, bytes => chunkNode first 15 1 iv bytes
  | fuel+1, first, bytes =>
    if bytes.length ≤ 1024 then chunkNode first 15 1 iv bytes
    else
      let left := 2^Nat.log2 ((bytes.length+1023)/1024 - 1)
      parentNode (treeNode fuel first (bytes.take (left*1024))).chain
        (treeNode fuel (first+left) (bytes.drop (left*1024))).chain

def wordBytes (w : ℕ) : List UInt8 :=
  [UInt8.ofNat w, UInt8.ofNat (w/0x100), UInt8.ofNat (w/0x10000), UInt8.ofNat (w/0x1000000)]

def laneBytes (x : ℕ) : List UInt8 := (laneWords x).flatMap wordBytes

theorem laneBytes_length (x : ℕ) : (laneBytes x).length = 16 := rfl

def referenceXof64 (bytes : List UInt8) : List.Vector UInt8 64 :=
  let node := treeNode 54 0 bytes
  let out := Node.compress { node with counter := 0, flags := Nat.add node.flags 8 }
  ⟨laneBytes out.1.1 ++ laneBytes out.1.2 ++ laneBytes out.2.1 ++ laneBytes out.2.2, by
    simp only [List.length_append, laneBytes_length]⟩

/-- The output of a root node. -/
def Node.output (node : Node) : List.Vector UInt8 64 :=
  let out := Node.compress { node with counter := 0, flags := Nat.add node.flags 8 }
  ⟨laneBytes out.1.1 ++ laneBytes out.1.2 ++ laneBytes out.2.1 ++ laneBytes out.2.2, by
    simp only [List.length_append, laneBytes_length]⟩

theorem referenceXof64_eq_output (bytes : List UInt8) :
    referenceXof64 bytes = (treeNode 54 0 bytes).output := rfl

/-! ### Chunks

The chaining values of the chunks of a long input can be found one by one. -/

/-- The chaining value of a chunk that has others beside it. -/
def chunkChain (counter : ℕ) (bytes : List UInt8) : ℕ × ℕ := (chunkNode counter 15 1 iv bytes).chain

theorem treeNode_chain {fuel first : ℕ} {bytes : List UInt8} (h : bytes.length ≤ 1024) :
    (treeNode fuel first bytes).chain = chunkChain first bytes := by
  cases fuel with
  | zero => rfl
  | succ fuel =>
    rw [treeNode, if_pos h]
    rfl

/-- A long input is split after the largest power of two of chunks. -/
theorem treeNode_append {fuel first left : ℕ} {l r : List UInt8} (hl : l.length = left*1024)
    (hleft : left = 2^Nat.log2 (((l ++ r).length+1023)/1024 - 1)) (hlong : 1024 < (l ++ r).length) :
    treeNode (fuel+1) first (l ++ r) = parentNode (treeNode fuel first l).chain
      (treeNode fuel (first+left) r).chain := by
  rw [treeNode, if_neg (Nat.not_le.mpr hlong)]
  simp only [← hleft, ← hl, List.take_left, List.drop_left]

/-- An input of more than three chunks. -/
theorem referenceXof64_fourChunks {c0 c1 c2 c3 : List UInt8} (h0 : c0.length = 1024)
    (h1 : c1.length = 1024) (h2 : c2.length = 1024) (hpos : 0 < c3.length) (h3 : c3.length ≤ 1024) :
    referenceXof64 ((c0 ++ c1) ++ (c2 ++ c3)) =
      (parentNode (parentNode (chunkChain 0 c0) (chunkChain 1 c1)).chain
        (parentNode (chunkChain 2 c2) (chunkChain 3 c3)).chain).output := by
  have hlast : (c3.length+1023)/1024 = 1 := by omega
  have hlow : (c0 ++ c1).length = 2*1024 := by rw [List.length_append, h0, h1]
  have hhigh : (c2 ++ c3).length = 1024 + c3.length := by rw [List.length_append, h2]
  have hfour : ((c0 ++ c1 ++ (c2 ++ c3)).length+1023)/1024 = 4 := by
    rw [List.length_append, hlow, hhigh]
    omega
  have htwo : ((c2 ++ c3).length+1023)/1024 = 2 := by
    rw [hhigh]
    omega
  have hone : c0.length = 1*1024 := h0
  have hone' : c2.length = 1*1024 := h2
  rw [referenceXof64_eq_output,
    treeNode_append hlow (by rw [hfour]; rfl) (by rw [List.length_append, hlow]; omega),
    treeNode_append hone (by rw [hlow]; rfl) (by rw [hlow]; omega),
    treeNode_append hone' (by rw [htwo]; rfl) (by rw [hhigh]; omega),
    treeNode_chain (Nat.le_of_eq h0), treeNode_chain (Nat.le_of_eq h1),
    treeNode_chain (Nat.le_of_eq h2), treeNode_chain h3]

/-- The published function. -/
@[reducible] def reference : Blake3 := ⟨referenceXof64⟩

/-- The published function with some of its values looked up. -/
@[reducible] def cached (table : List (List UInt8 × List.Vector UInt8 64)) : Blake3 :=
  ⟨fun bytes => match table.find? fun e => e.1 = bytes with
    | some e => e.2
    | none => referenceXof64 bytes⟩

theorem cached_eq {table : List (List UInt8 × List.Vector UInt8 64)}
    (h : ∀ e ∈ table, referenceXof64 e.1 = e.2) : cached table = reference := by
  refine congrArg Blake3.mk (funext fun bytes => ?_)
  split
  · rename_i e he
    have hfound := @List.find?_some _ (fun e => decide (e.1 = bytes)) e table he
    rw [← of_decide_eq_true hfound]
    exact (h e (List.mem_of_find?_eq_some he)).symm
  · rfl

example : toHex (reference.xof64 []).toList =
    "af1349b9f5f9a1a6a0404dea36dcc9499bcb25c9adc112b7cc9a93cae41f3262" ++
    "e00f03e7b69af26b7faaf09fcd333050338ddfe085b8cc869ca98b206c08243a" := by
  decide +kernel

end Blake3
