/-
# Bytes are read as a text exactly if they spell it

A character is written as a lead byte and the bytes that it asks for: one
byte below 128, else two, three or four.  The bounds of the lead leave room
for just these (`splitTail_append`), and the bits of all of them are the code
point again (`assemble_ofNat`), so the bytes of a character are one piece
(`pieces_utf8EncodeChar`), and those of a text are its characters.

The other way round, bytes that keep to the bounds of their lead spell a code
point that is written as just them (`utf8EncodeChar_assemble`): the bounds
exclude what has a shorter form and what is no character.  So no byte string
but the text's own is read as that text (`decode?_eq_some`).
-/
import Mathlib
import LineRelay.Text.Utf8

namespace LineRelay.Text.Utf8

variable {bs : Bytes}

theorem toNat_ofNat_byte {n : Nat} (h : n < 256) : (UInt8.ofNat n).toNat = n := by
  rw [UInt8.toNat_ofNat', Nat.mod_eq_of_lt h]

/-- Following bytes that lie in their bounds are split off. -/
theorem splitTail_append (ts : List Nat) {t : Nat} {low high : UInt8}
    (ht : low.toNat ≤ t ∧ t ≤ high.toNat) (hts : ∀ t ∈ ts, 128 ≤ t ∧ t ≤ 191) :
    splitTail (ts.length + 1) low high (UInt8.ofNat t :: ts.map UInt8.ofNat ++ bs)
      = (UInt8.ofNat t :: ts.map UInt8.ofNat, bs) := by
  induction ts generalizing t low high with
  | nil =>
      have hbyte := toNat_ofNat_byte (Nat.lt_of_le_of_lt ht.2 high.toNat_lt)
      simp [splitTail, UInt8.le_iff_toNat_le, hbyte, ht]
  | cons u ts ih =>
      have hbyte := toNat_ofNat_byte (Nat.lt_of_le_of_lt ht.2 high.toNat_lt)
      obtain ⟨hu, hts⟩ := List.forall_mem_cons.1 hts
      have hrest := @ih u 0x80 0xBF hu hts
      simp only [List.map_cons, List.length_cons, List.cons_append] at hrest ⊢
      rw [splitTail, if_pos (by simpa only [UInt8.le_iff_toNat_le, hbyte] using ht), hrest]

/-- The code point that a lead byte and the bytes behind it spell. -/
theorem assemble_ofNat {n : Nat} {ts : List Nat} (hn : n < 256) (hts : ∀ t ∈ ts, t < 256) :
    assemble (UInt8.ofNat n) (ts.map UInt8.ofNat)
      = Char.ofNat (ts.foldl (fun v t => v * 64 + t % 64) (n % (64 >>> ts.length))) := by
  have hfold : ∀ v, (ts.map UInt8.ofNat).foldl (fun v t => v * 64 + t.toNat % 64) v
      = ts.foldl (fun v t => v * 64 + t % 64) v := by
    induction ts with
    | nil => intro v; rfl
    | cons t ts ih =>
        intro v
        obtain ⟨ht, hts⟩ := List.forall_mem_cons.1 hts
        rw [List.map_cons, List.foldl_cons, List.foldl_cons, toNat_ofNat_byte ht, ih hts]
  rw [assemble, hfold, toNat_ofNat_byte hn, List.length_map]

/-- A lead byte and the bytes that it asks for are one character. -/
theorem pieces_of_lead {n t : Nat} {ts : List Nat} {lead : Lead} (hn : 128 ≤ n ∧ n < 256)
    (hlead : Lead.ofByte? (UInt8.ofNat n) = some lead) (hmore : lead.more = ts.length + 1)
    (ht : lead.low.toNat ≤ t ∧ t ≤ lead.high.toNat) (hts : ∀ t ∈ ts, 128 ≤ t ∧ t ≤ 191) :
    pieces ((n :: t :: ts).map UInt8.ofNat ++ bs)
      = .char (Char.ofNat
          ((t :: ts).foldl (fun v t => v * 64 + t % 64) (n % (64 >>> (ts.length + 1)))))
        :: pieces bs := by
  have hsplit := @splitTail_append bs ts t lead.low lead.high ht hts
  have hlarge : ¬ UInt8.ofNat n < 0x80 := by
    rw [UInt8.lt_iff_toNat_lt, toNat_ofNat_byte hn.2]
    exact Nat.not_lt.2 hn.1
  have hbytes : ∀ u ∈ t :: ts, u < 256 :=
    List.forall_mem_cons.2 ⟨Nat.lt_of_le_of_lt ht.2 lead.high.toNat_lt, fun u hu => by
      have := hts u hu
      omega⟩
  rw [← hmore, ← List.map_cons] at hsplit
  rw [List.map_cons, List.cons_append, pieces, if_neg hlarge, hlead]
  simp only [hsplit]
  rw [if_pos (by rw [List.length_map, hmore, List.length_cons]), assemble_ofNat hn.2 hbytes]
  rfl

theorem ofByte?_two {n : Nat} (hn : 194 ≤ n ∧ n ≤ 223) :
    Lead.ofByte? (UInt8.ofNat n) = some ⟨1, 0x80, 0xBF⟩ := by
  have hbyte := toNat_ofNat_byte (show n < 256 by omega)
  simp [Lead.ofByte?, UInt8.le_iff_toNat_le, hbyte, hn]

theorem ofByte?_three {n : Nat} (hn : 224 ≤ n ∧ n ≤ 239) :
    Lead.ofByte? (UInt8.ofNat n)
      = some ⟨2, if n = 224 then 0xA0 else 0x80, if n = 237 then 0x9F else 0xBF⟩ := by
  have hbyte := toNat_ofNat_byte (show n < 256 by omega)
  simp only [Lead.ofByte?, UInt8.le_iff_toNat_le, ← UInt8.toNat_inj, hbyte]
  simp only [UInt8.reduceToNat]
  split_ifs <;> first | rfl | omega

theorem ofByte?_four {n : Nat} (hn : 240 ≤ n ∧ n ≤ 244) :
    Lead.ofByte? (UInt8.ofNat n)
      = some ⟨3, if n = 240 then 0x90 else 0x80, if n = 244 then 0x8F else 0xBF⟩ := by
  have hbyte := toNat_ofNat_byte (show n < 256 by omega)
  simp only [Lead.ofByte?, UInt8.le_iff_toNat_le, ← UInt8.toNat_inj, hbyte]
  simp only [UInt8.reduceToNat]
  split_ifs <;> first | rfl | omega

/-- What a character is encoded as is read as that character. -/
theorem pieces_utf8EncodeChar (c : Char) (bs : Bytes) :
    pieces (String.utf8EncodeChar c ++ bs) = .char c :: pieces bs := by
  have hvalid : c.toNat < 55296 ∨ 57343 < c.toNat ∧ c.toNat < 1114112 := c.valid
  have hchar : ∀ {n : Nat}, n = c.toNat → Char.ofNat n = c := by
    intro n hn
    rw [hn, Char.ofNat_toNat]
  simp only [String.utf8EncodeChar, Char.toNat_val]
  split_ifs with h₁ h₂ h₃
  · have hbyte := toNat_ofNat_byte (show c.toNat < 256 by omega)
    have hsmall : UInt8.ofNat c.toNat < 0x80 := by
      rw [UInt8.lt_iff_toNat_lt, hbyte]
      exact Nat.lt_succ_of_le h₁
    rw [List.singleton_append, pieces, if_pos hsmall, hbyte, hchar rfl]
  · rw [← List.map_singleton (f := UInt8.ofNat), ← List.map_cons]
    rw [pieces_of_lead (by omega) (ofByte?_two (by omega)) rfl ⟨by simp, by simp; omega⟩
      (by simp), hchar]
    simp
    omega
  · rw [← List.map_singleton (f := UInt8.ofNat), ← List.map_cons, ← List.map_cons]
    rw [pieces_of_lead (by omega) (ofByte?_three (by omega)) rfl _ (by simp; omega), hchar]
    · simp
      omega
    · constructor
      · split_ifs <;> simp <;> omega
      · split_ifs <;> simp <;> omega
  · rw [← List.map_singleton (f := UInt8.ofNat), ← List.map_cons, ← List.map_cons, ← List.map_cons]
    rw [pieces_of_lead (by omega) (ofByte?_four (by omega)) rfl _ (by simp; omega), hchar]
    · simp
      omega
    · constructor
      · split_ifs <;> simp <;> omega
      · split_ifs <;> simp <;> omega

theorem pieces_flatMap (cs : List Char) :
    pieces (cs.flatMap String.utf8EncodeChar) = cs.map .char := by
  induction cs with
  | nil => rw [List.flatMap_nil, pieces, List.map_nil]
  | cons c cs ih => rw [List.flatMap_cons, pieces_utf8EncodeChar, ih, List.map_cons]

theorem ofString_eq (s : String) : Bytes.ofString s = s.toList.flatMap String.utf8EncodeChar := by
  have hbytes : s.toByteArray = s.toList.utf8Encode := by
    rw [← String.toByteArray_ofList, String.ofList_toList]
  rw [Bytes.ofString, String.toUTF8_eq_toByteArray, hbytes, List.utf8Encode,
    List.toList_data_toByteArray]

theorem mapM_char?_eq_some {ps : List Piece} {cs : List Char} :
    ps.mapM Piece.char? = some cs ↔ ps = cs.map .char := by
  induction ps generalizing cs with
  | nil =>
      rw [List.mapM_nil, Option.pure_def, Option.some.injEq, eq_comm, eq_comm (a := []),
        List.map_eq_nil_iff]
  | cons p ps ih =>
      simp only [List.mapM_cons, Option.bind_eq_bind, Option.bind_eq_some_iff, Option.pure_def,
        Option.some.injEq, ih]
      constructor
      · rintro ⟨c, hc, cs, rfl, rfl⟩
        cases p with
        | broken => cases hc
        | char c' => rw [List.map_cons, Option.some.inj hc]
      · intro h
        obtain ⟨c, cs, rfl, rfl, rfl⟩ := List.map_eq_cons_iff.1 h.symm
        exact ⟨c, rfl, cs, rfl, rfl⟩

/-- Every text is read back from its bytes. -/
theorem decode?_ofString (s : String) : decode? (Bytes.ofString s) = some s := by
  rw [decode?, ofString_eq, pieces_flatMap, mapM_char?_eq_some.2 rfl, Option.map_some,
    String.ofList_toList]

/-! ## Nothing else is read -/

/-- Splitting off loses nothing. -/
theorem splitTail_append_eq (n : Nat) (low high : UInt8) (bs : Bytes) :
    (splitTail n low high bs).1 ++ (splitTail n low high bs).2 = bs := by
  induction n generalizing low high bs with
  | zero => rfl
  | succ n ih =>
      cases bs with
      | nil => rfl
      | cons b bs =>
          rw [splitTail]
          split_ifs
          · exact congrArg (b :: ·) (ih 0x80 0xBF bs)
          · rfl

/-- What is split off lies in its bounds, the first byte in those that are
given. -/
theorem mem_splitTail {n : Nat} {low high : UInt8} {bs : Bytes} :
    (∀ t ∈ (splitTail n low high bs).1.head?, low ≤ t ∧ t ≤ high)
      ∧ ∀ t ∈ (splitTail n low high bs).1.tail, 0x80 ≤ t ∧ t ≤ 0xBF := by
  induction n generalizing low high bs with
  | zero => simp [splitTail]
  | succ n ih =>
      cases bs with
      | nil => simp [splitTail]
      | cons b bs =>
          rw [splitTail]
          split_ifs with hb
          · refine ⟨by simpa using hb, fun t ht => ?_⟩
            obtain ⟨hfirst, hrest⟩ := @ih 0x80 0xBF bs
            simp only [List.tail_cons] at ht
            cases htail : (splitTail n 0x80 0xBF bs).1 with
            | nil =>
                rw [htail] at ht
                cases ht
            | cons u us =>
                rw [htail] at ht hfirst hrest
                rcases List.mem_cons.1 ht with rfl | ht
                · exact hfirst _ rfl
                · exact hrest _ ht
          · simp

/-- The lead bytes of the longer forms, and what they ask for. -/
theorem ofByte?_cases {b : UInt8} {lead : Lead} (h : Lead.ofByte? b = some lead) :
    (194 ≤ b.toNat ∧ b.toNat ≤ 223 ∧ lead = ⟨1, 0x80, 0xBF⟩)
      ∨ (224 ≤ b.toNat ∧ b.toNat ≤ 239
          ∧ lead = ⟨2, if b.toNat = 224 then 0xA0 else 0x80, if b.toNat = 237 then 0x9F else 0xBF⟩)
      ∨ (240 ≤ b.toNat ∧ b.toNat ≤ 244
          ∧ lead = ⟨3, if b.toNat = 240 then 0x90 else 0x80,
              if b.toNat = 244 then 0x8F else 0xBF⟩) := by
  rw [← UInt8.ofNat_toNat (x := b)] at h
  by_cases h₂ : 194 ≤ b.toNat ∧ b.toNat ≤ 223
  · rw [ofByte?_two h₂] at h
    exact .inl ⟨h₂.1, h₂.2, (Option.some.inj h).symm⟩
  by_cases h₃ : 224 ≤ b.toNat ∧ b.toNat ≤ 239
  · rw [ofByte?_three h₃] at h
    exact .inr (.inl ⟨h₃.1, h₃.2, (Option.some.inj h).symm⟩)
  by_cases h₄ : 240 ≤ b.toNat ∧ b.toNat ≤ 244
  · rw [ofByte?_four h₄] at h
    exact .inr (.inr ⟨h₄.1, h₄.2, (Option.some.inj h).symm⟩)
  · exfalso
    rw [UInt8.ofNat_toNat] at h
    simp only [Lead.ofByte?, UInt8.le_iff_toNat_le, ← UInt8.toNat_inj] at h
    simp only [UInt8.reduceToNat] at h
    split_ifs at h <;> omega

theorem ofNat_eq_byte {b : UInt8} {n : Nat} (h : n = b.toNat) : UInt8.ofNat n = b := by
  rw [h, UInt8.ofNat_toNat]

/-- The code point that a lead byte and the bytes behind it spell is written
as just these bytes. -/
theorem utf8EncodeChar_assemble {b : UInt8} {lead : Lead} {tail : Bytes}
    (hlead : Lead.ofByte? b = some lead) (hlen : tail.length = lead.more)
    (hfirst : ∀ t ∈ tail.head?, lead.low ≤ t ∧ t ≤ lead.high)
    (hrest : ∀ t ∈ tail.tail, 0x80 ≤ t ∧ t ≤ 0xBF) :
    String.utf8EncodeChar (assemble b tail) = b :: tail := by
  rcases ofByte?_cases hlead with ⟨hlow, hhigh, rfl⟩ | ⟨hlow, hhigh, rfl⟩ | ⟨hlow, hhigh, rfl⟩
  · obtain ⟨t, rfl⟩ := List.length_eq_one_iff.1 hlen
    obtain ⟨ht, ht'⟩ := hfirst t rfl
    rw [UInt8.le_iff_toNat_le] at ht ht'
    simp only [UInt8.reduceToNat] at ht ht'
    simp only [assemble, List.foldl_cons, List.foldl_nil, List.length_singleton,
      Nat.reduceShiftRight]
    have hvalid : (b.toNat % 32 * 64 + t.toNat % 64).isValidChar := .inl (by omega)
    simp only [String.utf8EncodeChar, Char.toNat_val, Char.toNat_ofNat, if_pos hvalid]
    rw [if_neg (by omega), if_pos (by omega), ofNat_eq_byte (b := b) (by omega),
      ofNat_eq_byte (b := t) (by omega)]
  · obtain ⟨t, u, rfl⟩ := List.length_eq_two.1 hlen
    obtain ⟨ht, ht'⟩ := hfirst t rfl
    obtain ⟨hu, hu'⟩ := hrest u (by simp)
    rw [UInt8.le_iff_toNat_le] at ht ht' hu hu'
    simp only [apply_ite UInt8.toNat, UInt8.reduceToNat] at ht ht' hu hu'
    simp only [assemble, List.foldl_cons, List.foldl_nil, List.length_cons, List.length_nil,
      Nat.reduceShiftRight, Nat.reduceAdd]
    have hvalid : ((b.toNat % 16 * 64 + t.toNat % 64) * 64 + u.toNat % 64).isValidChar := by
      rw [Nat.isValidChar]
      split_ifs at ht ht' <;> omega
    simp only [String.utf8EncodeChar, Char.toNat_val, Char.toNat_ofNat, if_pos hvalid]
    rw [if_neg, if_neg, if_pos, ofNat_eq_byte (b := b), ofNat_eq_byte (b := t),
      ofNat_eq_byte (b := u)]
    all_goals (split_ifs at ht ht' <;> omega)
  · obtain ⟨t, u, v, rfl⟩ := List.length_eq_three.1 hlen
    obtain ⟨ht, ht'⟩ := hfirst t rfl
    obtain ⟨hu, hu'⟩ := hrest u (by simp)
    obtain ⟨hv, hv'⟩ := hrest v (by simp)
    rw [UInt8.le_iff_toNat_le] at ht ht' hu hu' hv hv'
    simp only [apply_ite UInt8.toNat, UInt8.reduceToNat] at ht ht' hu hu' hv hv'
    simp only [assemble, List.foldl_cons, List.foldl_nil, List.length_cons, List.length_nil,
      Nat.reduceShiftRight, Nat.reduceAdd]
    have hvalid : (((b.toNat % 8 * 64 + t.toNat % 64) * 64 + u.toNat % 64) * 64
        + v.toNat % 64).isValidChar := by
      rw [Nat.isValidChar]
      split_ifs at ht ht' <;> omega
    simp only [String.utf8EncodeChar, Char.toNat_val, Char.toNat_ofNat, if_pos hvalid]
    rw [if_neg, if_neg, if_neg, ofNat_eq_byte (b := b), ofNat_eq_byte (b := t),
      ofNat_eq_byte (b := u), ofNat_eq_byte (b := v)]
    all_goals (split_ifs at ht ht' <;> omega)

/-- Bytes of which every piece is a character are those that the characters
are encoded as. -/
theorem eq_flatMap_of_pieces {cs : List Char} (h : pieces bs = cs.map .char) :
    bs = cs.flatMap String.utf8EncodeChar := by
  induction bs using pieces.induct generalizing cs with
  | case1 =>
      rw [pieces] at h
      rw [List.map_eq_nil_iff.1 h.symm, List.flatMap_nil]
  | case2 b bs hb ih =>
      rw [pieces, if_pos hb] at h
      obtain ⟨c, cs, rfl, hc, hcs⟩ := List.map_eq_cons_iff.1 h.symm
      have hsmall : b.toNat < 128 := UInt8.lt_iff_toNat_lt.1 hb
      have hvalid : b.toNat.isValidChar := .inl (by omega)
      rw [List.flatMap_cons, ← ih hcs.symm, Piece.char.inj hc]
      simp only [String.utf8EncodeChar, Char.toNat_val, Char.toNat_ofNat, if_pos hvalid]
      rw [if_pos (by omega), UInt8.ofNat_toNat, List.singleton_append]
  | case3 b bs hb hlead ih =>
      rw [pieces, if_neg hb, hlead] at h
      obtain ⟨c, cs, rfl, hc, hcs⟩ := List.map_eq_cons_iff.1 h.symm
      cases hc
  | case4 b bs hb lead hlead cut =>
      rename_i ih
      rw [pieces, if_neg hb, hlead] at h
      obtain ⟨c, cs, rfl, hc, hcs⟩ := List.map_eq_cons_iff.1 h.symm
      obtain ⟨hfirst, hrest⟩ := @mem_splitTail lead.more lead.low lead.high bs
      split_ifs at hc with hlen
      rw [List.flatMap_cons, ← ih hcs.symm, Piece.char.inj hc,
        utf8EncodeChar_assemble hlead hlen hfirst hrest, List.cons_append,
        splitTail_append_eq lead.more lead.low lead.high bs]

/-- Bytes are read as a text exactly if they spell it. -/
theorem decode?_eq_some {s : String} : decode? bs = some s ↔ bs = Bytes.ofString s := by
  constructor
  · intro h
    obtain ⟨cs, hcs, rfl⟩ := Option.map_eq_some_iff.1 h
    rw [ofString_eq, String.toList_ofList]
    exact eq_flatMap_of_pieces (mapM_char?_eq_some.1 hcs)
  · rintro rfl
    exact decode?_ofString s

end LineRelay.Text.Utf8
