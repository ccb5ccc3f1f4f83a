/-!
# Digests

A value that serves as the key of a map is found by a digest of its content. A digest is taken of a
sequence of words (`Word`): bits, counts, truth values and texts, in the order in which they are fed
to a hash.

**The hash is a parameter (`Hasher`)**, any function of the sequence. Equal contents are spelled out
as the same words, so they have equal digests whatever the hash. That contents which differ have
different digests is true of no hash; where the notice of a single changed word matters, it is a
named hypothesis (`Hasher.Discerning`).

A node may carry the digest of its content (`Memo`). Whoever changes the content drops it.
-/

namespace Stylesheet

/-- One word of what is fed to a hash. -/
inductive Word where
  /-- Sixty-four bits: another digest, or those of a double. -/
  | bits (b : UInt64)
  /-- A length, an address, or the place of a constructor among those of its type. -/
  | count (n : Nat)
  | flag (b : Bool)
  | text (s : String)
  deriving DecidableEq

/-- A hash: the digest of every sequence of words. -/
class Hasher where
  digest : List Word → UInt64

namespace Hasher

/-- The hash notices when one word of bits, or one truth value, is changed. -/
structure Discerning [Hasher] : Prop where
  bits : ∀ (before after : List Word) (b b' : UInt64),
    digest (before ++ .bits b :: after) = digest (before ++ .bits b' :: after) → b = b'
  flag : ∀ (before after : List Word) (b b' : Bool),
    digest (before ++ .flag b :: after) = digest (before ++ .flag b' :: after) → b = b'

/-! ## A hash to run with -/

/-- The odd multiplier that spreads a word over the digest. -/
def multiplier : UInt64 := 0x517cc1b727220a95

/-- Takes sixty-four more bits into a digest. -/
def step (digest bits : UInt64) : UInt64 :=
  (((digest <<< 5) ||| (digest >>> 59)) ^^^ bits) * multiplier

/-- A word in sixty-four bits. -/
def code : Word → UInt64
  | .bits b => b
  | .count n => UInt64.ofNat n
  | .flag b => b.toUInt64
  | .text s => s.toList.foldl (fun digest c => step digest c.val.toUInt64) 0

/-- The hash that is used where no other is given: the words are taken in one by one. What is said
of every value is said for every hash; this one is for running, and for examples. -/
instance (priority := low) folding : Hasher where
  digest words := words.foldl (fun digest word => step digest (code word)) 0

end Hasher

namespace Digest

/-- A text that may be missing, as words. -/
def optionWords : Option String → List Word
  | none => [.count 0]
  | some s => [.count 1, .text s]

end Digest

/-- The digest that a node carries, if it carries one. -/
abbrev Memo := Option UInt64

namespace Memo

variable [Hasher]

/-- The digest that is carried, or else that of the given words. -/
def read (memo : Memo) (words : List Word) : UInt64 := memo.getD (Hasher.digest words)

theorem read_none (words : List Word) : read none words = Hasher.digest words := rfl

end Memo

end Stylesheet
