/-
RuleCodec/Keccak.lean

Keccak-256, with the padding of the Keccak submission: a one bit, zeros and a one bit.

The state is twenty-five 64-bit lanes, lane `(x, y)` at index `x + 5 * y`.  A round is the steps θ,
ρ and π together, χ and ι, each a function from state to state.
-/
import RuleCodec.Bytes

namespace RuleCodec.Keccak

/-- The state: lane `(x, y)` is at `x + 5 * y`. -/
abbrev State := Vector UInt64 25

/-- The lane at `(x, y)`, both counted modulo five. -/
def State.lane (s : State) (x y : Nat) : UInt64 :=
  s.get ⟨x % 5 + 5 * (y % 5), by omega⟩

/-- The state whose lane at `(x, y)` is `f x y`. -/
def State.ofLanes (f : Nat → Nat → UInt64) : State :=
  Vector.ofFn fun i => f (i.val % 5) (i.val / 5)

/-- Rotation to the left by fewer than 64 bits. -/
def rotate (lane : UInt64) (n : Nat) : UInt64 :=
  (lane <<< UInt64.ofNat n) ||| (lane >>> UInt64.ofNat (64 - n))

/-- θ: every lane takes in the parities of two neighbouring columns. -/
def theta (s : State) : State :=
  let parity : Vector UInt64 5 := Vector.ofFn fun x =>
    s.lane x.val 0 ^^^ s.lane x.val 1 ^^^ s.lane x.val 2 ^^^ s.lane x.val 3 ^^^ s.lane x.val 4
  let column (x : Nat) : UInt64 := parity.get ⟨x % 5, by omega⟩
  State.ofLanes fun x y => s.lane x y ^^^ column (x + 4) ^^^ rotate (column (x + 1)) 1

/-- How far ρ rotates each lane. -/
def offsets : Vector Nat 25 :=
  ⟨#[0, 1, 62, 28, 27,
     36, 44, 6, 55, 20,
     3, 10, 43, 25, 39,
     41, 45, 15, 21, 8,
     18, 2, 61, 56, 14], rfl⟩

/-- ρ and π: every lane is rotated and moved to its new place. -/
def rhoPi (s : State) : State :=
  State.ofLanes fun x y =>
    let from_ := x + 3 * y
    rotate (s.lane from_ x) (offsets.get ⟨from_ % 5 + 5 * (x % 5), by omega⟩)

/-- χ: every lane takes in the two lanes to its right. -/
def chi (s : State) : State :=
  State.ofLanes fun x y => s.lane x y ^^^ (~~~ s.lane (x + 1) y &&& s.lane (x + 2) y)

/-- ι: the first lane takes in the constant of the round. -/
def iota (constant : UInt64) (s : State) : State :=
  State.ofLanes fun x y =>
    if x = 0 ∧ y = 0 then s.lane 0 0 ^^^ constant else s.lane x y

/-- The constants of the twenty-four rounds. -/
def constants : List UInt64 :=
  [0x0000000000000001, 0x0000000000008082, 0x800000000000808A, 0x8000000080008000,
   0x000000000000808B, 0x0000000080000001, 0x8000000080008081, 0x8000000000008009,
   0x000000000000008A, 0x0000000000000088, 0x0000000080008009, 0x000000008000000A,
   0x000000008000808B, 0x800000000000008B, 0x8000000000008089, 0x8000000000008003,
   0x8000000000008002, 0x8000000000000080, 0x000000000000800A, 0x800000008000000A,
   0x8000000080008081, 0x8000000000008080, 0x0000000080000001, 0x8000000080008008]

/-- All rounds. -/
def permute (s : State) : State :=
  constants.foldl (fun s constant => iota constant (chi (rhoPi (theta s)))) s

/-- How many bytes a block holds. -/
def rate : Nat := 136

/-- The bytes that fill up the last block: at least one, and up to a whole block. -/
def padding (length : Nat) : Bytes :=
  let missing := rate - length % rate
  if missing = 1 then [0x81] else 0x01 :: List.replicate (missing - 2) 0x00 ++ [0x80]

/-- The padded blocks of a message. -/
def blocks (message : Bytes) : List Bytes :=
  let padded := message ++ padding message.length
  (List.range (padded.length / rate)).map fun i => (padded.drop (rate * i)).take rate

/-- Eight bytes as a lane, least significant first. -/
def laneOfBytes (bytes : Bytes) : UInt64 :=
  bytes.foldr (fun b lane => lane * 256 + UInt64.ofNat b.toNat) 0

/-- The bytes of a lane, least significant first. -/
def bytesOfLane (lane : UInt64) : Bytes :=
  (Bytes.ofNat 8 lane.toNat).reverse

/-- Takes a block in. -/
def absorb (s : State) (block : Bytes) : State :=
  permute <| Vector.ofFn fun i =>
    s.get i ^^^ laneOfBytes ((block.drop (8 * i.val)).take 8)

/-- The thirty-two bytes of the hash of a message. -/
def hash (message : Bytes) : Bytes :=
  let s := (blocks message).foldl absorb (Vector.replicate 25 0)
  (List.range 4).flatMap fun x => bytesOfLane (s.lane x 0)

end RuleCodec.Keccak
