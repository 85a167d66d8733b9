/-
# Bytes on the wire

A connection carries bytes and nothing else: no part of the relay asks
for them to be text.  Two of the 256 values mean something to it, the
newline that ends a line and the carriage return that some clients put
in front of it.
-/

namespace LineRelay

/-- What a connection carries. -/
abbrev Bytes := List UInt8

/-- The byte that ends a line on the wire. -/
def newline : UInt8 := 10

/-- The byte that may stand before the newline and is dropped there. -/
def carriageReturn : UInt8 := 13

namespace Bytes

/-- The bytes that spell a text. -/
def ofString (s : String) : Bytes := s.toUTF8.data.toList

/-- Cut off consecutive blocks of `n + 1` bytes; `fuel` bounds their number. -/
def blocksFrom (n : Nat) : Nat → Bytes → List Bytes
  | 0, _ => []
  | _ + 1, [] => []
  | fuel + 1, b :: bs =>
      (b :: bs.take n) :: blocksFrom n fuel (bs.drop n)

/-- The bytes in consecutive blocks of `n + 1`, the last one possibly shorter. -/
def blocks (n : Nat) (bs : Bytes) : List Bytes := blocksFrom n bs.length bs

theorem flatten_blocksFrom (n : Nat) :
    ∀ (fuel : Nat) (bs : Bytes), bs.length ≤ fuel → (blocksFrom n fuel bs).flatten = bs
  | 0, bs, h => by
      have : bs = [] := List.length_eq_zero_iff.1 (by omega)
      simp [this, blocksFrom]
  | _ + 1, [], _ => rfl
  | fuel + 1, b :: bs, h => by
      have hd : (bs.drop n).length ≤ fuel := by
        simp only [List.length_cons, List.length_drop] at *; omega
      simp [blocksFrom, flatten_blocksFrom n fuel _ hd]

/-- Cutting into blocks loses nothing and moves nothing. -/
theorem flatten_blocks (n : Nat) (bs : Bytes) : (blocks n bs).flatten = bs :=
  flatten_blocksFrom n bs.length bs (Nat.le_refl _)

theorem mem_blocksFrom {n : Nat} : ∀ {fuel : Nat} {bs : Bytes} {block : Bytes},
    block ∈ blocksFrom n fuel bs → block ≠ [] ∧ block.length ≤ n + 1
  | 0, _, _, h => by simp [blocksFrom] at h
  | _ + 1, [], _, h => by simp [blocksFrom] at h
  | fuel + 1, b :: bs, block, h => by
      simp only [blocksFrom, List.mem_cons] at h
      rcases h with rfl | h
      · refine ⟨by simp, ?_⟩
        simp only [List.length_cons, List.length_take]
        omega
      · exact mem_blocksFrom h

/-- No block is empty, and none is longer than it may be. -/
theorem mem_blocks {n : Nat} {bs block : Bytes} (h : block ∈ blocks n bs) :
    block ≠ [] ∧ block.length ≤ n + 1 :=
  mem_blocksFrom h

end Bytes

end LineRelay
