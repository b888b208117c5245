import MakeExt4fs.Lib.Image
import MakeExt4fs.Libsparse.CrcChunk
import MakeExt4fs.Libsparse.Written

namespace MakeExt4fs

open Interrupt Words
open Buffer (leBytes)

def pattern (word : List UInt8) (len : Nat) : List UInt8 :=
  (List.range len).map fun i => word.getD (i % 4) 0

def expandFrom (bs : Nat) : Nat → Image → List UInt8 → Image
  | 0, img, _ => img
  | turns + 1, img, bytes =>
    let hdr := ChunkHeader.ofBytes (bytes.take chunkHeaderLen)
    let body := bytes.drop chunkHeaderLen
    let len := hdr.chunkSz * bs
    if hdr.chunkType = chunkTypeRaw then
      expandFrom bs turns (img.write (body.take len)) (body.drop len)
    else if hdr.chunkType = chunkTypeFill then
      expandFrom bs turns (img.write (pattern (body.take 4) len)) (body.drop 4)
    else if hdr.chunkType = chunkTypeDontCare then
      expandFrom bs turns (img.skip len) body
    else
      img

def applyOp (img : Image) : OutputOp × Bool → Image
  | (.write data, false) => img.write data
  | (.skip cnt, false) => img.skip cnt.toNat
  | (.truncate len, false) => img.truncate len.toNat
  | _ => img

def Out.image (out : Out) : Image :=
  if out.file.sparse then
    expandFrom out.file.blockSize out.written.length .empty (out.written.drop sparseHeaderLen)
  else
    out.ops.foldl applyOp .empty

namespace SparseChunk

def put (sparse : Bool) (bs : Nat) (img : Image) : SparseChunk → Image
  | raw data =>
    if sparse then img.write (data ++ padding bs data.length)
    else (img.write data).skip (align32 data.length bs - data.length)
  | fill len fillVal =>
    img.write (pattern (leBytes 4 fillVal) (if sparse then align32 len bs else len))
  | skip blocks => img.skip (blocks * bs)

def Sized (bs : Nat) : SparseChunk → Prop
  | skip blocks => blocks < 4294967296
  | c => c.Writable bs

end SparseChunk

@[simp] theorem length_pattern (word : List UInt8) (len : Nat) : (pattern word len).length = len := by
  simp [pattern]

theorem getD_pattern {word : List UInt8} {len i : Nat} (h : i < len) :
    (pattern word len).getD i 0 = word.getD (i % 4) 0 := by
  simp [pattern, List.getD_eq_getElem?_getD, h]

theorem pattern_append (word : List UInt8) {m : Nat} (n : Nat) (h : 4 ∣ m) :
    pattern word m ++ pattern word n = pattern word (m + n) := by
  simp only [pattern, List.range_add, List.map_append, List.map_map]
  congr 1
  apply List.map_congr_left
  intro i _
  obtain ⟨k, rfl⟩ := h
  simp only [Function.comp, Nat.mul_add_mod]

theorem pattern_four (v : Nat) : pattern (leBytes 4 v) 4 = leBytes 4 v := by
  simp [pattern, List.range_succ, leBytes]

section Expanding

variable {bs : Nat} {img : Image}

theorem expandFrom_chunk {c : SparseChunk} (hc : c.Sized bs) (turns : Nat)
    (rest : List UInt8) :
    expandFrom bs (turns + 1) img (c.bytes bs ++ rest) =
      expandFrom bs turns (c.put true bs img) rest := by
  have hdrop (hdr : ChunkHeader) (body : List UInt8) :
      (hdr.bytes ++ body).drop chunkHeaderLen = body := List.drop_left' hdr.length_bytes
  have htake (hdr : ChunkHeader) (body : List UInt8) :
      (hdr.bytes ++ body).take chunkHeaderLen = hdr.bytes := List.take_left' hdr.length_bytes
  have hsz (len : Nat) : u32 (align32 len bs / bs) * bs = align32 len bs := by
    have halign : align32 len bs < 4294967296 := u32_lt _
    rw [u32_of_lt ((Nat.div_le_self _ _).trans_lt halign), align32_div_mul]
  cases c with
  | raw data =>
    have hlen := length_padded hc
    rw [SparseChunk.bytes, List.append_assoc, expandFrom, hdrop, htake,
      ChunkHeader.ofBytes_bytes]
    simp only [u16, chunkTypeRaw, Nat.reduceMod, if_true, hsz]
    rw [List.take_left' hlen, List.drop_left' hlen]
    rfl
  | fill len fillVal =>
    have hword : (leBytes 4 fillVal).length = 4 := Buffer.length_leBytes _ _
    rw [SparseChunk.bytes, List.append_assoc, expandFrom, hdrop, htake, ChunkHeader.ofBytes_bytes]
    simp only [u16, chunkTypeRaw, chunkTypeFill, Nat.reduceMod, Nat.reduceEqDiff, if_true, if_false,
      hsz]
    rw [List.take_left' hword, List.drop_left' hword]
    rfl
  | skip blocks =>
    have hblocks : u32 blocks = blocks := u32_of_lt hc
    rw [SparseChunk.bytes, expandFrom, hdrop, htake, ChunkHeader.ofBytes_bytes]
    simp only [u16, chunkTypeRaw, chunkTypeFill, chunkTypeDontCare, Nat.reduceMod,
      Nat.reduceEqDiff, if_true, if_false, hblocks]
    rfl

theorem expandFrom_chunks {cs : List SparseChunk} (hcs : ∀ c ∈ cs, c.Sized bs)
    {tail : List UInt8} (htail : ∀ turns img, expandFrom bs turns img tail = img) {turns : Nat}
    (hturns : cs.length ≤ turns) :
    expandFrom bs turns img (cs.flatMap (SparseChunk.bytes bs) ++ tail) =
      cs.foldl (SparseChunk.put true bs) img := by
  induction cs generalizing img turns with
  | nil => exact htail turns img
  | cons c cs ih =>
    obtain ⟨turns, rfl⟩ : ∃ n, turns = n + 1 := ⟨turns - 1, by
      rw [List.length_cons] at hturns
      omega⟩
    rw [List.flatMap_cons, List.append_assoc, expandFrom_chunk (hcs c List.mem_cons_self),
      List.foldl_cons]
    refine ih (fun d hd => hcs d (List.mem_cons_of_mem c hd)) ?_
    rw [List.length_cons] at hturns
    omega

theorem expandFrom_nil (turns : Nat) (img : Image) : expandFrom bs turns img [] = img := by
  cases turns with
  | zero => rfl
  | succ turns =>
    have hnone : ChunkHeader.ofBytes (([] : List UInt8).take chunkHeaderLen) = ⟨0, 0, 0, 0⟩ := by
      decide
    rw [expandFrom, hnone]
    rfl

theorem expandFrom_crc (crc32 turns : Nat) (img : Image) :
    expandFrom bs turns img (crcChunkBytes crc32) = img := by
  cases turns with
  | zero => rfl
  | succ turns =>
    have htake : (crcChunkBytes crc32).take chunkHeaderLen =
        ChunkHeader.bytes ⟨chunkTypeCrc32, 0, 0, 16⟩ := List.take_left' (ChunkHeader.length_bytes _)
    rw [expandFrom, htake, ChunkHeader.ofBytes_bytes]
    rfl

end Expanding

end MakeExt4fs
