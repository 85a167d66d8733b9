/-
# UTF-8, strictly and leniently

Bytes are cut into pieces, each a well-formed character or a maximal
stretch that begins one and does not finish it (one byte, where no
character begins with it).  Reading strictly wants characters only; the
lenient reading puts one replacement character for each stretch, so a
broken sequence of three bytes that was well formed so far shows as one
mark and not as three.
-/
import LineRelay.Bytes

namespace LineRelay.Text.Utf8

/-- What a lead byte asks for: how many bytes follow it, and between
which bounds the first of them lies.  The bounds exclude the overlong
forms, the surrogates and what lies above the last code point. -/
structure Lead where
  more : Nat
  low : UInt8
  high : UInt8

/-- What `b` asks for as the first of several bytes; `none` if no longer
form begins with it. -/
def Lead.ofByte? (b : UInt8) : Option Lead :=
  if 0xC2 ≤ b ∧ b ≤ 0xDF then some ⟨1, 0x80, 0xBF⟩
  else if b = 0xE0 then some ⟨2, 0xA0, 0xBF⟩
  else if b = 0xED then some ⟨2, 0x80, 0x9F⟩
  else if 0xE1 ≤ b ∧ b ≤ 0xEF then some ⟨2, 0x80, 0xBF⟩
  else if b = 0xF0 then some ⟨3, 0x90, 0xBF⟩
  else if 0xF1 ≤ b ∧ b ≤ 0xF3 then some ⟨3, 0x80, 0xBF⟩
  else if b = 0xF4 then some ⟨3, 0x80, 0x8F⟩
  else none

/-- Split off up to `n` following bytes: the first between the bounds,
the later ones between `0x80` and `0xBF`. -/
def splitTail : Nat → UInt8 → UInt8 → Bytes → Bytes × Bytes
  | 0, _, _, bs => ([], bs)
  | _ + 1, _, _, [] => ([], [])
  | n + 1, low, high, b :: bs =>
      if low ≤ b ∧ b ≤ high then
        let (tail, rest) := splitTail n 0x80 0xBF bs
        (b :: tail, rest)
      else ([], b :: bs)

theorem length_splitTail : ∀ (n : Nat) (low high : UInt8) (bs : Bytes),
    (splitTail n low high bs).2.length ≤ bs.length
  | 0, _, _, _ => Nat.le_refl _
  | _ + 1, _, _, [] => Nat.le_refl _
  | n + 1, low, high, b :: bs => by
      have ih := length_splitTail n 0x80 0xBF bs
      simp only [splitTail]
      split
      · simp only [List.length_cons]; omega
      · simp

/-- One cut of the bytes: a well-formed character, or a stretch that is none.
-/
inductive Piece where
  | char (c : Char)
  | broken
deriving DecidableEq

/-- The character with the given lead byte and following bytes: each of
the latter carries six bits, the lead what its own mark leaves. -/
def assemble (b : UInt8) (tail : Bytes) : Char :=
  Char.ofNat (tail.foldl (fun v t => v * 64 + t.toNat % 64) (b.toNat % (64 >>> tail.length)))

/-- The pieces of a byte string, in order. -/
def pieces : Bytes → List Piece
  | [] => []
  | b :: bs =>
      if b < 0x80 then .char (Char.ofNat b.toNat) :: pieces bs
      else
        match Lead.ofByte? b with
        | none => .broken :: pieces bs
        | some lead =>
            let cut := splitTail lead.more lead.low lead.high bs
            let piece := if cut.1.length = lead.more then .char (assemble b cut.1) else .broken
            piece :: pieces cut.2
termination_by bs => bs.length
decreasing_by
  · simp
  · simp
  · have := length_splitTail lead.more lead.low lead.high bs
    simp only [List.length_cons]
    exact Nat.lt_succ_of_le this

def replacement : Char := Char.ofNat 0xFFFD

def Piece.shown : Piece → Char
  | .char c => c
  | .broken => replacement

def Piece.char? : Piece → Option Char
  | .char c => some c
  | .broken => none

/-- The lenient reading: every broken stretch becomes one replacement
character. -/
def decodeLenient (bs : Bytes) : String :=
  String.ofList ((pieces bs).map Piece.shown)

/-- The strict reading: `none` unless every piece is a character. -/
def decode? (bs : Bytes) : Option String :=
  ((pieces bs).mapM Piece.char?).map String.ofList

end LineRelay.Text.Utf8
