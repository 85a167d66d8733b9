/-
# What goes out as lines comes back as those lines

A line goes out as its bytes and a newline.  A stretch of such wires,
however it is cut into reads, is read back as the lines it was made of,
and then as an end, time and again:

| goes out | comes back |
| :-- | :-- |
| a line | that line, less one carriage return at its end |
| nothing more | a clean end |

So the reader is a left inverse of the writer but for `Line.chomp`, which
drops one carriage return and never two.  No payload becomes two lines,
since a line holds no newline; and a limit that the lines keep rejects
none of them, since it counts what stands before the newline.

The two sides meet at `Frame.ofMarks`: wires are framed as their lines
(`Frame.ofMarks_wires`), and calls that meet no gap answer the frames of
their stream one by one (`Framer.answers_of_chunks`).
-/
import LineRelay.Proofs.Framing.Streaming

namespace LineRelay

/-! ## Lines and their wires -/

/-- The line less one carriage return at its end. -/
def Line.chomp (l : Line) : Line :=
  ⟨Frame.content l.bytes, Frame.newline_not_mem_content l.newline_not_mem⟩

/-- A line comes back as it is exactly if it does not end in a carriage
return. -/
theorem Line.chomp_eq_self_iff (l : Line) :
    l.chomp = l ↔ l.bytes.getLast? ≠ some carriageReturn := by
  constructor
  · intro h hlast
    have hne : l.bytes ≠ [] := by
      intro hnil
      rw [hnil] at hlast
      cases hlast
    have hbytes : Frame.content l.bytes = l.bytes := congrArg Line.bytes h
    rw [Frame.content, if_pos hlast] at hbytes
    have hlength := congrArg List.length hbytes
    have := List.length_pos_iff.2 hne
    rw [List.length_dropLast] at hlength
    omega
  · intro hlast
    exact Line.ext (if_neg hlast)

/-- The lines that go out one after the other. -/
def Line.wires (ls : List Line) : Bytes := ls.flatMap Line.toWire

@[simp] theorem Line.wires_cons (l : Line) (ls : List Line) :
    wires (l :: ls) = l.bytes ++ newline :: wires ls := by
  simp [wires, toWire]

namespace Frame

/-- Wires are framed as their lines. -/
theorem ofMarks_wires {limit : Option UInt64} {ls : List Line}
    (hlimit : ∀ m, limit = some m → ∀ l ∈ ls, l.bytes.length ≤ m.toNat) (marks : List Mark) :
    ofMarks limit [] ((Line.wires ls).map .byte ++ marks)
      = ls.map (fun l => .line l.chomp.bytes) ++ ofMarks limit [] marks := by
  induction ls with
  | nil => rfl
  | cons l ls ih =>
      have hrest := ih fun m hm l hl => hlimit m hm l (List.mem_cons_of_mem _ hl)
      have hwithin : ∀ m, limit = some m → ([] : Bytes).length + l.bytes.length ≤ m.toNat := by
        intro m hm
        have := hlimit m hm l List.mem_cons_self
        simpa using this
      have hstretch := ofMarks_stretch (.byte newline :: ((Line.wires ls).map .byte ++ marks))
        l.newline_not_mem hwithin
      rw [List.nil_append, ofMarks_newline, hrest] at hstretch
      simpa [Line.chomp] using hstretch

theorem ofMarks_replicate_ended (limit : Option UInt64) (n : Nat) :
    ofMarks limit [] (List.replicate n .ended) = List.replicate n .ended := by
  induction n with
  | zero => rfl
  | succ n ih => simp [List.replicate_succ, ofMarks, atEnd, ih]

/-- A stretch without newline fits if the line it makes does. -/
theorem linesFit_stretch {length : Nat} {body : Bytes} {marks : List Mark}
    (hbody : newline ∉ body) (hlength : length + body.length < Framer.unlimited.toNat)
    (h : LinesFit (length + body.length) marks) : LinesFit length (body.map .byte ++ marks) := by
  induction body generalizing length with
  | nil => simpa using h
  | cons b body ih =>
      have hb : b ≠ newline := fun e => hbody (e ▸ List.mem_cons_self)
      have hrest : newline ∉ body := fun e => hbody (List.mem_cons_of_mem _ e)
      simp only [List.length_cons] at hlength h
      simp only [List.map_cons, List.cons_append, LinesFit, if_neg hb]
      refine ⟨by omega, ih hrest (by omega) ?_⟩
      rwa [show length + 1 + body.length = length + (body.length + 1) by omega]

theorem linesFit_wires {ls : List Line}
    (h : ∀ l ∈ ls, l.bytes.length < Framer.unlimited.toNat) :
    LinesFit 0 ((Line.wires ls).map .byte) := by
  induction ls with
  | nil => trivial
  | cons l ls ih =>
      have hrest := ih fun l hl => h l (List.mem_cons_of_mem _ hl)
      have hfirst := h l List.mem_cons_self
      rw [Line.wires_cons, List.map_append, List.map_cons]
      refine linesFit_stretch l.newline_not_mem (by omega) ?_
      simpa [LinesFit] using hrest

end Frame

/-! ## Calls that meet no gap -/

/-- The answer that a frame is. -/
def Frame.answer : Frame → ReadResult
  | .line bs => .line (.ofBytes bs)
  | .ended => .ended
  | .unterminated length => .failed (.unterminated length)
  | .tooLong limit => .failed (.tooLong limit)

/-- An answer that is no gap is a frame. -/
theorem ReadResult.exists_frame {r : ReadResult} (h : r.gap? = none) :
    ∃ f, r.frame? = some f ∧ f.answer = r := by
  match r with
  | .line l => exact ⟨.line l.bytes, rfl, by rw [Frame.answer, Line.ofBytes_bytes]⟩
  | .ended => exact ⟨.ended, rfl, rfl⟩
  | .failed (.unterminated length) => exact ⟨.unterminated length, rfl, rfl⟩
  | .failed (.tooLong m) => exact ⟨.tooLong m, rfl, rfl⟩
  | .failed (.stream _) | .notReady => cases h

/-- Answers without a gap are their frames. -/
theorem map_answer_frames {rs : List ReadResult} (hgaps : rs.filterMap ReadResult.gap? = []) :
    (rs.filterMap ReadResult.frame?).map Frame.answer = rs := by
  have hnone : ∀ r ∈ rs, r.gap? = none := List.filterMap_eq_nil_iff.1 hgaps
  clear hgaps
  induction rs with
  | nil => rfl
  | cons r rs ih =>
      obtain ⟨f, hf, hanswer⟩ := ReadResult.exists_frame (hnone r List.mem_cons_self)
      rw [List.filterMap_cons_some hf, List.map_cons, hanswer,
        ih fun r' hr' => hnone r' (List.mem_cons_of_mem _ hr')]

/-! ## Round trips -/

theorem Delivery.gap?_reads {d : Delivery} (h : d.gap? = none) :
    ∀ d' ∈ d.reads, d'.gap? = none := by
  intro d' hd'
  match d with
  | .data bs =>
      have hdata : d' = .ended ∨ ∃ block, d' = .data block := by
        simp only [reads, ofBytes] at hd'
        split_ifs at hd'
        · exact .inl (List.mem_singleton.1 hd')
        · obtain ⟨block, -, rfl⟩ := List.mem_map.1 hd'
          exact .inr ⟨block, rfl⟩
      rcases hdata with rfl | ⟨block, rfl⟩ <;> rfl
  | .ended | .failed _ | .notReady => exact List.mem_singleton.1 hd' ▸ h

/-- A stretch of bytes in chunks, of any size but none of them empty,
holds those bytes. -/
theorem Delivery.marks_of_chunks {chunks : List Bytes} (h : ∀ chunk ∈ chunks, chunk ≠ []) :
    ((chunks.map Delivery.data).flatMap Delivery.reads).flatMap Delivery.marks
      = chunks.flatten.map .byte := by
  rw [Delivery.flatMap_reads_marks, Delivery.marks_of_blocks h]

/-- On a stream of bytes in chunks that ends, any number of calls answer
the frames of the bytes, and then ends. -/
theorem Framer.answers_of_chunks (limit : Option UInt64) {chunks : List Bytes} (n : Nat)
    (hchunks : ∀ chunk ∈ chunks, chunk ≠ [])
    (hfit : Fits limit 0 (chunks.flatten.map .byte)) :
    ∃ extra frames, frames.map Frame.answer
        = ((Framer.mk limit [] []).calls (.ofScript (chunks.map .data)) n).1
      ∧ frames <+: Frame.ofMarks limit []
          (chunks.flatten.map .byte ++ List.replicate extra .ended) := by
  have hmarks := Delivery.marks_of_chunks hchunks
  have hstart : Between (Framer.mk limit [] []) (.ofScript (chunks.map .data)) :=
    ⟨List.not_mem_nil, fun m _ => Nat.zero_le _, by simpa [Inlet.ofScript, hmarks] using hfit⟩
  obtain ⟨extra, reached, hreach, hframes, hgaps⟩ := hstart.calls n
  generalize (Framer.mk limit [] []).calls (.ofScript (chunks.map .data)) n = after at *
  have hsplit : (chunks.map .data).flatMap Delivery.reads ++ List.replicate extra .ended
      = reached ++ after.2.2.items := hreach.split
  refine ⟨extra, after.1.filterMap ReadResult.frame?, map_answer_frames ?_, ?_⟩
  · -- no read of a chunk is a gap, and none of the ends after them
    rw [hgaps, List.filterMap_eq_nil_iff]
    intro d hd
    have hmem := List.mem_append_left after.2.2.items hd
    rw [← hsplit] at hmem
    rcases List.mem_append.1 hmem with hmem | hmem
    · obtain ⟨d₀, hd₀, hmem⟩ := List.mem_flatMap.1 hmem
      obtain ⟨chunk, -, rfl⟩ := List.mem_map.1 hd₀
      exact Delivery.gap?_reads rfl d hmem
    · rw [List.eq_of_mem_replicate hmem]
      rfl
  · have hall := congrArg (List.flatMap Delivery.marks) hsplit
    rw [List.flatMap_append, List.flatMap_append, hmarks, List.flatMap_replicate] at hall
    have hends : (List.replicate extra Delivery.ended.marks).flatten
        = List.replicate extra .ended := by simp
    rw [hends] at hall
    have hthere := hframes (after.2.2.items.flatMap Delivery.marks)
    rw [List.map_nil, List.nil_append] at hthere
    rw [hall, ← hthere]
    exact List.prefix_append _ _

/-- Lines that go out, in whatever chunks their bytes come in, are read
back as exactly those lines, each less one carriage return at its end, and
then as a clean end whenever the reader is asked again.  This holds with
every limit that the lines keep.  A chunk has at least one byte, since a read
of none is an end, and no line in memory has as many bytes as `unlimited`. -/
theorem Framer.calls_of_wires (limit : Option UInt64) (bs chunks : List Bytes) (n : Nat)
    (hchunks : ∀ chunk ∈ chunks, chunk ≠ [])
    (hsplit : chunks.flatten = (bs.map fun b => (Line.ofBytes b).toWire).flatten)
    (hlimit : ∀ m, limit = some m → ∀ b ∈ bs, (Line.ofBytes b).bytes.length ≤ m.toNat)
    (hmemory : ∀ b ∈ bs, (Line.ofBytes b).bytes.length < unlimited.toNat) :
    ((Framer.mk limit [] []).calls (.ofScript (chunks.map .data)) n).1
        = (bs.map (fun b => ReadResult.line (Line.ofBytes b).chomp)
            ++ List.replicate n ReadResult.ended).take n
      ∧ ∀ b ∈ bs, (Line.ofBytes b).chomp = Line.ofBytes b
          ↔ (Line.ofBytes b).bytes.getLast? ≠ some carriageReturn := by
  refine ⟨?_, fun b _ => (Line.ofBytes b).chomp_eq_self_iff⟩
  have hwires : chunks.flatten = Line.wires (bs.map Line.ofBytes) := by
    rw [hsplit, Line.wires, List.flatMap_map, List.flatMap_def]
  have hlimit' : ∀ m, limit = some m → ∀ l ∈ bs.map Line.ofBytes, l.bytes.length ≤ m.toNat := by
    intro m hm l hl
    obtain ⟨b, hb, rfl⟩ := List.mem_map.1 hl
    exact hlimit m hm b hb
  have hfit : Fits limit 0 (chunks.flatten.map .byte) := by
    refine .inr ⟨unlimited_pos, hwires ▸ Frame.linesFit_wires ?_⟩
    intro l hl
    obtain ⟨b, hb, rfl⟩ := List.mem_map.1 hl
    exact hmemory b hb
  obtain ⟨extra, frames, hanswers, hframes⟩ := answers_of_chunks limit n hchunks hfit
  rw [hwires, Frame.ofMarks_wires hlimit', Frame.ofMarks_replicate_ended] at hframes
  have hlength := congrArg List.length hanswers
  rw [List.length_map, length_calls] at hlength
  have hle := hframes.length_le
  rw [hlength, List.length_append, List.length_map, List.length_map, List.length_replicate] at hle
  -- as many ends were reached as the calls asked for
  have hcount : min (n - bs.length) extra = min (n - bs.length) n := by omega
  rw [← hanswers, List.prefix_iff_eq_take.1 hframes, hlength, List.map_take, List.map_append,
    List.map_replicate, List.take_append, List.take_append, List.take_replicate,
    List.take_replicate]
  simp [Frame.answer, Function.comp_def, hcount]

/-- Three lines, one that ends in two carriage returns and one of a
payload with a newline in it, with their bytes in three chunks. -/
theorem Framer.calls_of_wires_chopped :
    let limit : Option UInt64 := some 3
    let bs : List Bytes := [[97, carriageReturn, carriageReturn], [98, newline, 99], []]
    let chunks : List Bytes :=
      [[97], [carriageReturn, carriageReturn, newline, 98], [newline, newline]]
    (∀ chunk ∈ chunks, chunk ≠ [])
    ∧ chunks.flatten = (bs.map fun b => (Line.ofBytes b).toWire).flatten
    ∧ (∀ m, limit = some m → ∀ b ∈ bs, (Line.ofBytes b).bytes.length ≤ m.toNat)
    ∧ (∀ b ∈ bs, (Line.ofBytes b).bytes.length < unlimited.toNat)
    ∧ ((Framer.mk limit [] []).calls (.ofScript (chunks.map .data)) 5).1
        = (bs.map (fun b => ReadResult.line (Line.ofBytes b).chomp)
            ++ List.replicate 5 ReadResult.ended).take 5
    ∧ ∀ b ∈ bs, (Line.ofBytes b).chomp = Line.ofBytes b
        ↔ (Line.ofBytes b).bytes.getLast? ≠ some carriageReturn := by
  intro limit bs chunks
  have hchunks : ∀ chunk ∈ chunks, chunk ≠ [] := by decide
  have hsplit : chunks.flatten = (bs.map fun b => (Line.ofBytes b).toWire).flatten := by decide
  have hlimit : ∀ m, limit = some m → ∀ b ∈ bs, (Line.ofBytes b).bytes.length ≤ m.toNat := by
    intro m hm
    obtain rfl : 3 = m := Option.some.inj hm
    decide
  have hmemory : ∀ b ∈ bs, (Line.ofBytes b).bytes.length < unlimited.toNat := by decide
  exact ⟨hchunks, hsplit, hlimit, hmemory,
    calls_of_wires limit bs chunks 5 hchunks hsplit hlimit hmemory⟩

end LineRelay
