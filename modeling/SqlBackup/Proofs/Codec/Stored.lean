import Mathlib
import SqlBackup.Codec.Reading
import SqlBackup.Codec.Writing

/-!
# Stored blocks

The bits of a byte are read lowest first, so eight of them at the start of a byte are that byte.
What is written in stored blocks is therefore read again byte by byte, in whichever way a reader
asks for it, and the trailer behind it is the one that is looked for.
-/
namespace SqlBackup.Codec

theorem toList_loop (bytes : ByteArray) (i : Nat) (front : List UInt8) :
    ByteArray.toList.loop bytes i front = front.reverse ++ bytes.data.toList.drop i := by
  induction i, front using ByteArray.toList.loop.induct bytes with
  | case1 i front hlt ih =>
    have hi : i < bytes.data.toList.length := by simpa using hlt
    have hget : bytes.get! i = bytes.data.toList[i] := by
      rw [ByteArray.get!, getElem!_pos bytes.data i (by simpa using hlt), Array.getElem_toList]
    rw [ByteArray.toList.loop, if_pos hlt, ih, List.reverse_cons, List.append_assoc,
      List.singleton_append, hget, ← List.drop_eq_getElem_cons hi]
  | case2 i front hge =>
    have hi : bytes.data.toList.length ≤ i := by simpa using hge
    rw [ByteArray.toList.loop, if_neg hge, List.drop_eq_nil_of_le hi, List.append_nil]

theorem toList_eq (bytes : ByteArray) : bytes.toList = bytes.data.toList := by
  rw [ByteArray.toList, toList_loop, List.reverse_nil, List.nil_append, List.drop_zero]

theorem size_of_toList {input : ByteArray} {bytes : List UInt8} (h : input.data.toList = bytes) :
    input.size = bytes.length := by
  rw [← h, Array.length_toList, ByteArray.size_data]

/-- The byte behind the front of an input. -/
theorem byteAt_of_append {input : ByteArray} {front back : List UInt8} {b : UInt8}
    (h : input.data.toList = front ++ b :: back) : byteAt input front.length = b := by
  have hlt : front.length < input.size := by
    rw [size_of_toList h, List.length_append, List.length_cons]
    omega
  have hget : input.data.toList[front.length]? = some b := by
    rw [h, List.getElem?_append_right le_rfl, Nat.sub_self, List.getElem?_cons_zero]
  rw [byteAt, dif_pos hlt, ByteArray.getElem_eq_data_getElem]
  rw [Array.getElem?_toList, Array.getElem?_eq_getElem (by simpa using hlt)] at hget
  exact Option.some.inj hget

/-- The number that these bytes are, the low one first. -/
def numberOf (bytes : List UInt8) : Nat := bytes.foldr (fun b n => n * 256 + b.toNat) 0

theorem numberOf_cons (b : UInt8) (bytes : List UInt8) :
    numberOf (b :: bytes) = numberOf bytes * 256 + b.toNat := rfl

theorem numberOf_append (front bytes : List UInt8) :
    numberOf (front ++ bytes) = numberOf front + 256 ^ front.length * numberOf bytes := by
  induction front with
  | nil => simp [numberOf]
  | cons b front ih =>
    rw [List.cons_append, numberOf_cons, numberOf_cons, ih, List.length_cons, pow_succ]
    ring

namespace Gzip

theorem bytesOf_succ (count n : Nat) :
    bytesOf (count + 1) n = UInt8.ofNat n :: bytesOf count (n / 256) := by
  rw [bytesOf, List.range_succ_eq_map, List.map_cons, List.map_map, bytesOf]
  congr 1
  · exact congrArg _ (Nat.div_one n)
  · refine List.map_congr_left fun i _ => ?_
    show UInt8.ofNat (n / 256 ^ (i + 1)) = UInt8.ofNat (n / 256 / 256 ^ i)
    rw [Nat.div_div_eq_div_mul, pow_succ']

@[simp] theorem length_bytesOf (count n : Nat) : (bytesOf count n).length = count := by
  rw [bytesOf, List.length_map, List.length_range]

theorem numberOf_bytesOf (count n : Nat) : numberOf (bytesOf count n) = n % 256 ^ count := by
  induction count generalizing n with
  | zero => simp [bytesOf, numberOf, Nat.mod_one]
  | succ count ih =>
    rw [bytesOf_succ, numberOf_cons, ih, pow_succ', Nat.mod_mul, UInt8.toNat_ofNat']
    omega

/-- The number at an index is that of the bytes there. -/
theorem numberAt_of_append {input : ByteArray} {front bytes back : List UInt8}
    (h : input.data.toList = front ++ bytes ++ back) :
    numberAt input front.length bytes.length = numberOf bytes := by
  induction bytes generalizing front with
  | nil => rfl
  | cons b bytes ih =>
    rw [List.append_assoc, List.cons_append] at h
    have hrest := @ih (front ++ [b]) (by simpa using h)
    rw [List.length_append, List.length_singleton] at hrest
    rw [numberAt, List.length_cons, List.range_succ_eq_map, List.foldr_cons, List.foldr_map,
      Nat.add_zero, byteAt_of_append h, numberOf_cons, ← hrest, numberAt]
    simp only [Nat.succ_eq_add_one, Nat.add_assoc, Nat.add_comm 1]

end Gzip

namespace Output

@[simp] theorem bytes_settle (o : Output) : o.settle.bytes = o.bytes := rfl

@[simp] theorem bytes_touch (o : Output) (i : Nat) : (o.touch i).bytes = o.bytes := by
  unfold touch
  dsimp only
  split <;> rfl

end Output

namespace Inflate

@[simp] theorem State.bytes_emit (s : State) (b : UInt8) :
    (s.emit b).output.bytes = s.output.bytes.push b := by
  unfold emit
  dsimp only
  split <;> rfl

@[simp] theorem State.position_emit (s : State) (b : UInt8) :
    (s.emit b).position = s.position := by
  unfold emit
  dsimp only
  split <;> rfl

/-- From this state a step comes to a value at this position, and has made these bytes. -/
def Comes {α : Type} (step : Step α) (s : State) (a : α) (position : Nat) (made : List UInt8) :
    Prop :=
  ∃ s', step s = .ok (a, s') ∧ s'.position = position ∧
    s'.output.bytes.data.toList = s.output.bytes.data.toList ++ made

/-- The number in the `count` bits from a position on, lowest first. -/
def bitsAt (input : ByteArray) (position : Nat) : Nat → Nat
  | 0 => 0
  | count + 1 => 2 * bitsAt input (position + 1) count + bitAt input position

variable {input : ByteArray} {s : State} {front body back : List UInt8}

theorem bitsAt_add (position m n : Nat) : bitsAt input position (m + n) =
    bitsAt input position m + 2 ^ m * bitsAt input (position + m) n := by
  induction m generalizing position with
  | zero => simp [bitsAt]
  | succ m ih =>
    rw [Nat.add_right_comm, bitsAt, ih, bitsAt, Nat.add_assoc position 1 m, Nat.add_comm 1 m,
      pow_succ]
    ring

theorem bitAt_eq (i : Nat) {j : Nat} (hj : j < 8) :
    bitAt input (8 * i + j) = (byteAt input i).toNat / 2 ^ j % 2 := by
  have hbyte : (8 * i + j) / 8 = i := by omega
  have hbit : (8 * i + j) % 8 = j := by omega
  rw [bitAt, hbyte, hbit]
  rfl

/-- The bits at the start of a byte give its rest by a power of two. -/
theorem bitsAt_byte (i : Nat) {count : Nat} (hcount : count ≤ 8) :
    bitsAt input (8 * i) count = (byteAt input i).toNat % 2 ^ count := by
  induction count with
  | zero => simp [bitsAt, Nat.mod_one]
  | succ count ih =>
    rw [bitsAt_add, ih (by omega), bitsAt, bitsAt, Nat.mul_zero, Nat.zero_add,
      bitAt_eq i (by omega), pow_succ, Nat.mod_mul]

theorem bitsAt_byte_eight (i : Nat) : bitsAt input (8 * i) 8 = (byteAt input i).toNat := by
  rw [bitsAt_byte i le_rfl]
  exact Nat.mod_eq_of_lt (byteAt input i).toNat_lt

/-- The bits of bytes are their number. -/
theorem bitsAt_of_append {bytes : List UInt8} (h : input.data.toList = front ++ bytes ++ back) :
    bitsAt input (8 * front.length) (8 * bytes.length) = numberOf bytes := by
  induction bytes generalizing front with
  | nil => rfl
  | cons b bytes ih =>
    rw [List.append_assoc, List.cons_append] at h
    have hrest := @ih (front ++ [b]) (by simpa using h)
    rw [List.length_append, List.length_singleton, Nat.mul_add, Nat.mul_one] at hrest
    rw [List.length_cons, Nat.mul_add, Nat.mul_one, Nat.add_comm, bitsAt_add, bitsAt_byte_eight,
      byteAt_of_append h, hrest, numberOf_cons]
    omega

theorem comes_bits {count : Nat} (h : s.position + count ≤ 8 * input.size) :
    Comes (bits input count) s (bitsAt input s.position count) (s.position + count) [] := by
  induction count generalizing s with
  | zero => exact ⟨s, rfl, rfl, (List.append_nil _).symm⟩
  | succ count ih =>
    obtain ⟨position, output, start⟩ := s
    dsimp only at h
    obtain ⟨s', hrun, hposition, hbytes⟩ :=
      @ih ⟨position + 1, output.touch (position / 8), start⟩ (by dsimp only; omega)
    have hbit : nextBit input ⟨position, output, start⟩ = .ok (bitAt input position,
        ⟨position + 1, output.touch (position / 8), start⟩) := by
      rw [nextBit, if_neg (by omega)]
    refine ⟨s', ?_, by rw [hposition]; dsimp only; omega, by simpa using hbytes⟩
    simp only [bits, hbit, hrun]
    rfl

/-- Stored bytes are read again. -/
theorem comes_stored (h : input.data.toList = front ++ body ++ back)
    (hs : s.position = 8 * front.length) :
    Comes (stored input body.length) s () (8 * (front.length + body.length)) body := by
  induction body generalizing front s with
  | nil => exact ⟨s, rfl, hs, (List.append_nil _).symm⟩
  | cons b body ih =>
    rw [List.append_assoc, List.cons_append] at h
    have hsize : input.size = front.length + (body.length + back.length + 1) := by
      rw [size_of_toList h]
      simp
    obtain ⟨t, hrun, hposition, hbytes⟩ := @comes_bits input s 8 (by omega)
    rw [hs, bitsAt_byte_eight, byteAt_of_append h] at hrun
    obtain ⟨s', hrest, hposition', hbytes'⟩ := @ih (t.emit b) (front ++ [b])
      (by simpa using h)
      (by rw [State.position_emit, hposition, hs, List.length_append, List.length_singleton]; omega)
    refine ⟨s', ?_, ?_, ?_⟩
    · simp only [List.length_cons, stored, hrun, UInt8.ofNat_toNat, hrest]
    · rw [hposition', List.length_append, List.length_singleton, List.length_cons]
      omega
    · rw [hbytes', State.bytes_emit, ByteArray.data_push, Array.toList_push, hbytes]
      simp

end Inflate

namespace Gzip

/-- The lengths in front of a stored block. -/
def lengths (length : Nat) : List UInt8 := bytesOf 2 length ++ bytesOf 2 (65535 - length)

@[simp] theorem length_lengths (length : Nat) : (lengths length).length = 4 := by
  rw [lengths, List.length_append, length_bytesOf, length_bytesOf]

theorem numberOf_lengths {length : Nat} (h : length ≤ 65535) :
    numberOf (lengths length) = length + 65536 * (65535 - length) := by
  rw [lengths, numberOf_append, numberOf_bytesOf, numberOf_bytesOf, length_bytesOf]
  omega

/-- A stored block. -/
def storedBlock (last : UInt8) (body : List UInt8) : List UInt8 :=
  last :: lengths body.length ++ body

theorem length_storedBlock (last : UInt8) (body : List UInt8) :
    (storedBlock last body).length = body.length + 5 := by
  rw [storedBlock, List.length_append, List.length_cons, length_lengths, Nat.add_comm]

theorem storedBlocks_eq (bytes : List UInt8) : storedBlocks bytes =
    if (bytes.drop blockLimit).isEmpty then storedBlock 1 (bytes.take blockLimit)
    else storedBlock 0 (bytes.take blockLimit) ++ storedBlocks (bytes.drop blockLimit) := by
  rw [storedBlocks]
  split <;> rfl

open Inflate

variable {input : ByteArray} {s : State} {front body back : List UInt8}

theorem comes_block {last : UInt8} (hlast : last = 0 ∨ last = 1) (hlength : body.length ≤ 65535)
    (h : input.data.toList = front ++ storedBlock last body ++ back)
    (hs : s.position = 8 * front.length) :
    Comes (block input) s (last == 1) (8 * (front.length + (storedBlock last body).length))
      body := by
  have hsize : input.size = front.length + (body.length + 5) + back.length := by
    rw [size_of_toList h, List.length_append, List.length_append, length_storedBlock]
  have hparts : input.data.toList = front ++ [last] ++ lengths body.length ++ body ++ back := by
    rw [h, List.append_assoc (front ++ [last]), List.append_assoc front [last]]
    rfl
  have hfront : (front ++ [last] ++ lengths body.length).length = front.length + 5 := by
    rw [List.length_append, List.length_append, length_lengths, List.length_singleton]
  have hbyte : byteAt input front.length = last :=
    @byteAt_of_append input front (lengths body.length ++ body ++ back) last
      (h.trans (List.append_assoc ..))
  have hnumber : bitsAt input (8 * (front.length + 1)) 32 =
      body.length + 65536 * (65535 - body.length) := by
    have hbits := bitsAt_of_append (hparts.trans (List.append_assoc ..))
    rwa [numberOf_lengths hlength, List.length_append, length_lengths] at hbits
  have hlow : (body.length + 65536 * (65535 - body.length)) % 65536 = body.length := by omega
  have hsum : body.length + (body.length + 65536 * (65535 - body.length)) / 65536 = 65535 := by
    omega
  -- the three bits of the block say whether it is the last one and, by two zeros, that it is stored
  have hkind : last.toNat % 2 ^ 3 / 2 = 0 := by rcases hlast with rfl | rfl <;> rfl
  have hflag : decide (last.toNat % 2 ^ 3 % 2 = 1) = (last == 1) := by
    rcases hlast with rfl | rfl <;> rfl
  obtain ⟨t, hrun, hposition, hbytes⟩ := @comes_bits input s 3 (by omega)
  rw [hs, bitsAt_byte _ (by omega), hbyte] at hrun
  have hround : (t.position + 7) / 8 * 8 = 8 * (front.length + 1) := by omega
  obtain ⟨u, hrun', hposition', hbytes'⟩ :=
    @comes_bits input { t with position := 8 * (front.length + 1) } 32 (by dsimp only; omega)
  dsimp only at hrun' hposition' hbytes'
  rw [hnumber] at hrun'
  obtain ⟨v, hrun'', hposition'', hbytes''⟩ :=
    @comes_stored input u _ _ _ hparts (by rw [hposition', hfront]; omega)
  refine ⟨v, ?_, ?_, ?_⟩
  · simp only [block, hrun, hkind, hround, hrun', hlow, hsum, if_true, hrun'', hflag]
  · rw [hposition'', hfront, length_storedBlock]
    omega
  · rw [hbytes'', hbytes', hbytes, List.append_nil, List.append_nil]

theorem comes_blocks {bytes : List UInt8} {fuel : Nat}
    (hfuel : (storedBlocks bytes).length < fuel)
    (h : input.data.toList = front ++ storedBlocks bytes ++ back)
    (hs : s.position = 8 * front.length) :
    Comes (blocks input fuel) s () (8 * (front.length + (storedBlocks bytes).length)) bytes := by
  induction fuel generalizing bytes front s with
  | zero => exact absurd hfuel (Nat.not_lt_zero _)
  | succ fuel ih =>
    have hlength : (bytes.take blockLimit).length ≤ 65535 := by
      rw [List.length_take]
      exact Nat.min_le_left ..
    rw [storedBlocks_eq] at h hfuel ⊢
    split at h
    · next hshort =>
      rw [if_pos hshort]
      rw [List.isEmpty_iff, List.drop_eq_nil_iff] at hshort
      rw [List.take_of_length_le hshort] at h hlength ⊢
      obtain ⟨t, hrun, hposition, hbytes⟩ := comes_block (.inr rfl) hlength h hs
      exact ⟨t, by simp only [blocks, hrun]; rfl, hposition, hbytes⟩
    · next hlong =>
      rw [if_neg hlong] at hfuel ⊢
      rw [List.length_append, length_storedBlock] at hfuel
      obtain ⟨t, hrun, hposition, hbytes⟩ :=
        @comes_block input s front _ (storedBlocks (bytes.drop blockLimit) ++ back) 0 (.inl rfl)
          hlength (by simpa using h) hs
      obtain ⟨u, hrun', hposition', hbytes'⟩ :=
        @ih t (front ++ storedBlock 0 (bytes.take blockLimit)) (bytes.drop blockLimit) (by omega)
          (by simpa using h) (by rw [hposition, List.length_append])
      refine ⟨u, by simp only [blocks, hrun]; exact hrun', ?_, ?_⟩
      · rw [hposition', List.length_append, List.length_append]
        omega
      · rw [hbytes', hbytes, List.append_assoc, List.take_append_drop]

/-- The bytes of a header that says no more than that it is one. -/
def bareHeader : List UInt8 := [0x1F, 0x8B, 8, 0, 0, 0, 0, 0, 0, 0xFF]

theorem header_of_append (h : input.data.toList = bareHeader ++ back) :
    header input 0 = .ok 10 := by
  have hsize : input.size = 10 + back.length := by
    rw [size_of_toList h, List.length_append]
    rfl
  have hbyte {i : Nat} {b : UInt8} (hb : bareHeader[i]? = some b) : byteAt input i = b := by
    obtain ⟨hi, rfl⟩ := List.getElem?_eq_some_iff.mp hb
    have hsplit : input.data.toList =
        bareHeader.take i ++ bareHeader[i] :: (bareHeader.drop (i + 1) ++ back) := by
      rw [h, ← List.cons_append, ← List.drop_eq_getElem_cons hi, ← List.append_assoc,
        List.take_append_drop]
    have hget := byteAt_of_append hsplit
    rwa [List.length_take_of_le hi.le] at hget
  have hskip : skip input 0 10 = .ok 10 := by
    rw [skip, if_neg (by omega)]
  have h0 : byteAt input 0 = 0x1F := hbyte rfl
  have h1 : byteAt input 1 = 0x8B := hbyte rfl
  have h2 : byteAt input 2 = 8 := hbyte rfl
  have h3 : byteAt input 3 = 0 := hbyte rfl
  rw [header, hskip]
  show (if _ then _ else _ : Except Trouble Nat) = _
  simp only [Nat.zero_add, h0, h1, h2, h3]
  rfl

/-- The trailer that checks these bytes. -/
def trailer (bytes : List UInt8) : List UInt8 :=
  bytesOf 4 (Digest.Crc32.code bytes).toNat ++ bytesOf 4 bytes.length

theorem length_trailer (bytes : List UInt8) : (trailer bytes).length = 8 := by
  rw [trailer, List.length_append, length_bytesOf, length_bytesOf]

theorem encode_eq (bytes : List UInt8) :
    encode bytes = bareHeader ++ storedBlocks bytes ++ trailer bytes :=
  List.append_assoc ..

theorem code_of_trailer {bytes : List UInt8} (h : input.data.toList = front ++ trailer bytes) :
    numberAt input front.length 4 = (Digest.Crc32.code bytes).toNat := by
  have hnumber := numberAt_of_append (h.trans (List.append_assoc ..).symm)
  rw [numberOf_bytesOf, length_bytesOf] at hnumber
  exact hnumber.trans (Nat.mod_eq_of_lt (Digest.Crc32.code bytes).toNat_lt)

theorem size_of_trailer {bytes : List UInt8} (h : input.data.toList = front ++ trailer bytes) :
    numberAt input (front.length + 4) 4 = bytes.length % Nat.pow 2 32 := by
  have hsize : input.data.toList = front ++ bytesOf 4 (Digest.Crc32.code bytes).toNat ++
      bytesOf 4 bytes.length ++ [] := by
    rw [h, trailer, List.append_nil, List.append_assoc]
  have hnumber := numberAt_of_append hsize
  rwa [numberOf_bytesOf, length_bytesOf, List.length_append, length_bytesOf] at hnumber

/-- A member of stored blocks gives its bytes, and nothing is wrong with it. -/
theorem members_of_stored {bytes : List UInt8} (demand : Demand)
    (h : input.data.toList = bareHeader ++ storedBlocks bytes ++ trailer bytes) :
    ∃ o : Output, members input (input.size + 1) 0 (.empty stretchSize demand) =
      (o.settle, none) ∧ o.bytes.data.toList = bytes := by
  have hfront : (bareHeader ++ storedBlocks bytes).length = 10 + (storedBlocks bytes).length := by
    rw [List.length_append]
    rfl
  have hlength : input.size = 10 + (storedBlocks bytes).length + 8 := by
    rw [size_of_toList h, List.length_append, hfront, length_trailer]
  have hcode := code_of_trailer h
  have hsize := size_of_trailer h
  rw [hfront] at hcode hsize
  obtain ⟨s, hrun, hposition, hbytes⟩ := @comes_blocks input
    ⟨8 * 10, (Output.empty stretchSize demand).touch (10 - 1), 0⟩ bareHeader _ bytes
    (8 * input.size + 1) (by omega) h rfl
  rw [Output.bytes_touch] at hbytes
  have htext : s.output.bytes.data.toList = bytes := hbytes
  have hbehind : (s.position + 7) / 8 = 10 + (storedBlocks bytes).length := by
    have hheader : bareHeader.length = 10 := rfl
    omega
  have hskip : skip input (10 + (storedBlocks bytes).length) 8 =
      .ok (10 + (storedBlocks bytes).length + 8) := by
    rw [skip, if_neg (by omega)]
  have hstart : (Output.empty stretchSize demand).bytes.size = 0 := rfl
  refine ⟨s.output, ?_, htext⟩
  rw [members, header_of_append (h.trans (List.append_assoc ..))]
  simp only [hstart, hrun, hbehind, hskip, Output.bytes_settle, ByteArray.extract_zero_size,
    htext, hcode, hsize, bne_self_eq_false, Bool.or_self, Bool.false_eq_true, if_false,
    if_pos hlength.le]

/-- What is encoded is decoded again, however a reader asks for it. -/
theorem source_of_encode (demand : Demand) (bytes : List UInt8) :
    (decode demand ⟨encode bytes, none⟩).source = ⟨bytes, none⟩ := by
  obtain ⟨o, hmembers, hbytes⟩ := @members_of_stored (encode bytes).toByteArray bytes demand (by
    rw [List.data_toByteArray, encode_eq])
  have hkept : o.settle.kept.toList = bytes := by
    rw [Output.kept, Output.delivered_settle, Output.bytes_settle, ByteArray.extract_zero_size,
      toList_eq, hbytes]
  simp only [decode, hmembers, Decoded.source, hkept]
  rfl

end Gzip

end SqlBackup.Codec
