import Sipusu.Foundation.Words

/-!
# MurmurHash3

The 32-bit variant: the octets are mixed in by blocks of four, what is left after the
last whole block is scrambled in, then the length, and an avalanche ends it. All words
are of 32 bits, and numbers are reduced to them.
-/

namespace Sipusu.Foundation.Murmur3

abbrev Word := BitVec 32

/-- Up to four octets, the first of them lowest. -/
def word (bytes : Bytes) : Word := Words.ofBytes 32 bytes

/-- What a word goes through before it is mixed in. -/
def scramble (k : Word) : Word := (k * 0xcc9e2d51#32).rotateLeft 15 * 0x1b873593#32

/-- One block mixed into the hash. -/
def mix (hash block : Word) : Word :=
  (hash ^^^ scramble block).rotateLeft 13 * 5#32 + 0xe6546b64#32

/-- The words of the whole blocks. -/
def blocks : Bytes → List Word
  | a :: b :: c :: d :: rest => word [a, b, c, d] :: blocks rest
  | _ => []

/-- The whole blocks mixed into the hash, in order. -/
def body (hash : Word) (data : Bytes) : Word := (blocks data).foldl mix hash

/-- What the whole blocks leave. -/
def tail (data : Bytes) : Bytes := data.drop (data.length / 4 * 4)

def avalanche (hash : Word) : Word :=
  let hash := (hash ^^^ (hash >>> 16)) * 0x85ebca6b#32
  let hash := (hash ^^^ (hash >>> 13)) * 0xc2b2ae35#32
  hash ^^^ (hash >>> 16)

/-- The last steps, from the blocks' hash, the tail's word and the length. -/
def finish (hash tail : Word) (length : Nat) : Word :=
  avalanche (hash ^^^ scramble tail ^^^ BitVec.ofNat 32 length)

/-- The hash of the octets. -/
def hash (seed : Word) (data : Bytes) : Word :=
  finish (body seed data) (word (tail data)) data.length

example : hash 0 [0x74, 0x65, 0x73, 0x74] = 0xba6bd213 := by decide +kernel

theorem scramble_injective : Function.Injective scramble := by
  have first : (0xcc9e2d51#32 * 0xdee13bb1#32 : Word) = 1 := by decide
  have second : (0x1b873593#32 * 0x56ed309b#32 : Word) = 1 := by decide
  exact (Words.mul_injective second).comp
    ((Words.rotateLeft_injective (by decide)).comp (Words.mul_injective first))

theorem avalanche_injective : Function.Injective avalanche := by
  have first : (0x85ebca6b#32 * 0xa5cb9243#32 : Word) = 1 := by decide
  have second : (0xc2b2ae35#32 * 0x7ed1b41d#32 : Word) = 1 := by decide
  have start : Function.Injective fun hash : Word => (hash ^^^ (hash >>> 16)) * 0x85ebca6b#32 :=
    (Words.mul_injective first).comp (Words.xor_ushiftRight_injective (by decide))
  have middle : Function.Injective fun hash : Word => (hash ^^^ (hash >>> 13)) * 0xc2b2ae35#32 :=
    (Words.mul_injective second).comp (Words.xor_ushiftRight_injective (by decide))
  have last : Function.Injective fun hash : Word => hash ^^^ (hash >>> 16) :=
    Words.xor_ushiftRight_injective (by decide)
  exact last.comp (middle.comp start)

/-- After the same blocks and with the same length only the tail's word decides. -/
theorem finish_inj {hash left right : Word} {length : Nat} :
    finish hash left length = finish hash right length ↔ left = right := by
  rw [finish, finish, avalanche_injective.eq_iff, BitVec.xor_left_inj, BitVec.xor_right_inj,
    scramble_injective.eq_iff]

theorem length_tail_lt (data : Bytes) : (tail data).length < 4 := by
  rw [tail, List.length_drop]
  omega

theorem tail_of_short {data : Bytes} (short : data.length < 4) : tail data = data := by
  rw [tail, Nat.div_eq_of_lt short]
  rfl

theorem body_block (hash : Word) (a b c d : UInt8) (rest : Bytes) :
    body hash (a :: b :: c :: d :: rest) = body (mix hash (word [a, b, c, d])) rest := by
  rw [body, blocks, List.foldl_cons, body]

theorem body_of_short {hash : Word} {data : Bytes} (short : data.length < 4) :
    body hash data = hash := by
  match data, short with
  | [], _ | [_], _ | [_, _], _ | [_, _, _], _ => rfl

theorem tail_block (a b c d : UInt8) (rest : Bytes) :
    tail (a :: b :: c :: d :: rest) = tail rest := by
  have blocks : (rest.length + 4) / 4 * 4 = rest.length / 4 * 4 + 4 := by omega
  simp only [tail, List.length_cons, Nat.add_assoc, Nat.reduceAdd, blocks]
  rfl

/-- Tails of one length are determined by their words. -/
theorem word_inj {left right : Bytes} (short : left.length ≤ 4)
    (lengths : left.length = right.length) : word left = word right ↔ left = right := by
  constructor
  · exact Words.ofBytes_injective (by omega) lengths
  · rintro rfl
    rfl

end Sipusu.Foundation.Murmur3
