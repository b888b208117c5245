import Mathlib.Data.Nat.Bitwise
import MakeExt4fs.Utils.Types

namespace MakeExt4fs

open Words

def crc16Tab : List Nat := [
    0x0000, 0xC0C1, 0xC181, 0x0140, 0xC301, 0x03C0, 0x0280, 0xC241, 0xC601, 0x06C0,
    0x0780, 0xC741, 0x0500, 0xC5C1, 0xC481, 0x0440, 0xCC01, 0x0CC0, 0x0D80, 0xCD41,
    0x0F00, 0xCFC1, 0xCE81, 0x0E40, 0x0A00, 0xCAC1, 0xCB81, 0x0B40, 0xC901, 0x09C0,
    0x0880, 0xC841, 0xD801, 0x18C0, 0x1980, 0xD941, 0x1B00, 0xDBC1, 0xDA81, 0x1A40,
    0x1E00, 0xDEC1, 0xDF81, 0x1F40, 0xDD01, 0x1DC0, 0x1C80, 0xDC41, 0x1400, 0xD4C1,
    0xD581, 0x1540, 0xD701, 0x17C0, 0x1680, 0xD641, 0xD201, 0x12C0, 0x1380, 0xD341,
    0x1100, 0xD1C1, 0xD081, 0x1040, 0xF001, 0x30C0, 0x3180, 0xF141, 0x3300, 0xF3C1,
    0xF281, 0x3240, 0x3600, 0xF6C1, 0xF781, 0x3740, 0xF501, 0x35C0, 0x3480, 0xF441,
    0x3C00, 0xFCC1, 0xFD81, 0x3D40, 0xFF01, 0x3FC0, 0x3E80, 0xFE41, 0xFA01, 0x3AC0,
    0x3B80, 0xFB41, 0x3900, 0xF9C1, 0xF881, 0x3840, 0x2800, 0xE8C1, 0xE981, 0x2940,
    0xEB01, 0x2BC0, 0x2A80, 0xEA41, 0xEE01, 0x2EC0, 0x2F80, 0xEF41, 0x2D00, 0xEDC1,
    0xEC81, 0x2C40, 0xE401, 0x24C0, 0x2580, 0xE541, 0x2700, 0xE7C1, 0xE681, 0x2640,
    0x2200, 0xE2C1, 0xE381, 0x2340, 0xE101, 0x21C0, 0x2080, 0xE041, 0xA001, 0x60C0,
    0x6180, 0xA141, 0x6300, 0xA3C1, 0xA281, 0x6240, 0x6600, 0xA6C1, 0xA781, 0x6740,
    0xA501, 0x65C0, 0x6480, 0xA441, 0x6C00, 0xACC1, 0xAD81, 0x6D40, 0xAF01, 0x6FC0,
    0x6E80, 0xAE41, 0xAA01, 0x6AC0, 0x6B80, 0xAB41, 0x6900, 0xA9C1, 0xA881, 0x6840,
    0x7800, 0xB8C1, 0xB981, 0x7940, 0xBB01, 0x7BC0, 0x7A80, 0xBA41, 0xBE01, 0x7EC0,
    0x7F80, 0xBF41, 0x7D00, 0xBDC1, 0xBC81, 0x7C40, 0xB401, 0x74C0, 0x7580, 0xB541,
    0x7700, 0xB7C1, 0xB681, 0x7640, 0x7200, 0xB2C1, 0xB381, 0x7340, 0xB101, 0x71C0,
    0x7080, 0xB041, 0x5000, 0x90C1, 0x9181, 0x5140, 0x9301, 0x53C0, 0x5280, 0x9241,
    0x9601, 0x56C0, 0x5780, 0x9741, 0x5500, 0x95C1, 0x9481, 0x5440, 0x9C01, 0x5CC0,
    0x5D80, 0x9D41, 0x5F00, 0x9FC1, 0x9E81, 0x5E40, 0x5A00, 0x9AC1, 0x9B81, 0x5B40,
    0x9901, 0x59C0, 0x5880, 0x9841, 0x8801, 0x48C0, 0x4980, 0x8941, 0x4B00, 0x8BC1,
    0x8A81, 0x4A40, 0x4E00, 0x8EC1, 0x8F81, 0x4F40, 0x8D01, 0x4DC0, 0x4C80, 0x8C41,
    0x4400, 0x84C1, 0x8581, 0x4540, 0x8701, 0x47C0, 0x4680, 0x8641, 0x8201, 0x42C0,
    0x4380, 0x8341, 0x4100, 0x81C1, 0x8081, 0x4040]

def ext4Crc16 : Nat → List UInt8 → Nat
  | crc, [] => crc
  | crc, p :: rest =>
    ext4Crc16 (crc16Tab.getD ((crc ^^^ p.toNat) % 256) 0 ^^^ crc / 256) rest

section Crc

def crc16Step (crc : Nat) (p : UInt8) : Nat :=
  crc16Tab.getD ((crc ^^^ p.toNat) % 256) 0 ^^^ crc / 256

theorem ext4Crc16_append (crc : Nat) (ps qs : List UInt8) :
    ext4Crc16 crc (ps ++ qs) = ext4Crc16 (ext4Crc16 crc ps) qs := by
  induction ps generalizing crc with
  | nil => rfl
  | cons p ps ih => exact ih _

theorem crc16Tab_lt : ∀ i < 256, crc16Tab.getD i 0 < 65536 := by decide +kernel

theorem crc16Tab_high : ∀ i < 256, ∀ j < 256,
    crc16Tab.getD i 0 / 256 = crc16Tab.getD j 0 / 256 → i = j := by
  have hnodup : (crc16Tab.map (· / 256)).Nodup := by decide +kernel
  have hlength : crc16Tab.length = 256 := by decide +kernel
  intro i hi j hj h
  have hin (k : Nat) (hk : k < 256) : k < (crc16Tab.map (· / 256)).length := by
    simpa [hlength] using hk
  have hget (k : Nat) (hk : k < 256) :
      (crc16Tab.map (· / 256)).get ⟨k, hin k hk⟩ = crc16Tab.getD k 0 / 256 := by
    simp [List.getD_eq_getElem?_getD, hlength, hk]
  exact Fin.mk.inj (hnodup.get_inj_iff.mp ((hget i hi).trans (h.trans (hget j hj).symm)))

variable {c c' : Nat} {p p' : UInt8}

theorem crc16Step_lt (hc : c < 65536) : crc16Step c p < 65536 :=
  Nat.xor_lt_two_pow (n := 16) (crc16Tab_lt _ (Nat.mod_lt _ (by decide))) (by omega)

theorem crc16Step_high (hc : c < 65536) :
    crc16Step c p / 256 = crc16Tab.getD ((c ^^^ p.toNat) % 256) 0 / 256 := by
  have hdiv : c / 256 / 2 ^ 8 = 0 := by omega
  have hxor : crc16Step c p / 2 ^ 8 =
      crc16Tab.getD ((c ^^^ p.toNat) % 256) 0 / 2 ^ 8 ^^^ c / 256 / 2 ^ 8 := Nat.xor_div_two_pow
  rwa [hdiv, Nat.xor_zero] at hxor

theorem crc16Step_inj (hc : c < 65536) (hc' : c' < 65536) (h : crc16Step c p = crc16Step c' p') :
    (c ^^^ p.toNat) % 256 = (c' ^^^ p'.toNat) % 256 ∧ c / 256 = c' / 256 := by
  have hindex : (c ^^^ p.toNat) % 256 = (c' ^^^ p'.toNat) % 256 := by
    apply crc16Tab_high _ (Nat.mod_lt _ (by decide)) _ (Nat.mod_lt _ (by decide))
    rw [← crc16Step_high hc, ← crc16Step_high hc', h]
  refine ⟨hindex, ?_⟩
  rw [crc16Step, crc16Step, hindex] at h
  exact Nat.xor_right_injective h

theorem low_xor (n : Nat) (p : UInt8) : (n ^^^ p.toNat) % 256 = n % 256 ^^^ p.toNat := by
  have hxor : (n ^^^ p.toNat) % 2 ^ 8 = n % 2 ^ 8 ^^^ p.toNat % 2 ^ 8 := Nat.xor_mod_two_pow
  rwa [Nat.mod_eq_of_lt (show p.toNat < 2 ^ 8 from p.toNat_lt)] at hxor

theorem ext4Crc16_injective (ps : List UInt8) (hc : c < 65536) (hc' : c' < 65536)
    (h : ext4Crc16 c ps = ext4Crc16 c' ps) : c = c' := by
  induction ps generalizing c c' with
  | nil => exact h
  | cons p ps ih =>
    obtain ⟨hlow, hhigh⟩ := crc16Step_inj hc hc' (ih (crc16Step_lt hc) (crc16Step_lt hc') h)
    rw [low_xor, low_xor] at hlow
    have hmod := Nat.xor_left_injective hlow
    omega

theorem ext4Crc16_pair {q q' : UInt8} (hc : c < 65536)
    (h : ext4Crc16 c [p, q] = ext4Crc16 c [p', q']) : p = p' ∧ q = q' := by
  have hbyte {n : Nat} {r r' : UInt8} (heq : (n ^^^ r.toNat) % 256 = (n ^^^ r'.toNat) % 256) :
      r = r' := by
    rw [low_xor, low_xor] at heq
    exact UInt8.toNat.inj (Nat.xor_right_injective heq)
  obtain ⟨hlow, hhigh⟩ := crc16Step_inj (crc16Step_lt hc) (crc16Step_lt hc) h
  rw [crc16Step_high hc, crc16Step_high hc] at hhigh
  have hp : p = p' := hbyte (crc16Tab_high _ (Nat.mod_lt _ (by decide)) _
    (Nat.mod_lt _ (by decide)) hhigh)
  subst hp
  exact ⟨rfl, hbyte hlow⟩

theorem ext4Crc16_lt (ps : List UInt8) (hc : c < 65536) : ext4Crc16 c ps < 65536 := by
  induction ps generalizing c with
  | nil => exact hc
  | cons p ps ih => exact ih (crc16Step_lt hc)

theorem ext4Crc16_change (front back : List UInt8) {q q' : UInt8} (hc : c < 65536) :
    ext4Crc16 c (front ++ [p, q] ++ back) = ext4Crc16 c (front ++ [p', q'] ++ back) ↔
      p = p' ∧ q = q' := by
  constructor
  · intro h
    simp only [ext4Crc16_append] at h
    have hfront := ext4Crc16_lt front hc
    exact ext4Crc16_pair hfront
      (ext4Crc16_injective back (ext4Crc16_lt _ hfront) (ext4Crc16_lt _ hfront) h)
  · rintro ⟨rfl, rfl⟩
    rfl

end Crc

def Ext2GroupDesc.bytes (desc : Ext2GroupDesc) : List UInt8 :=
  Buffer.leBytes 4 desc.bgBlockBitmap ++ Buffer.leBytes 4 desc.bgInodeBitmap ++
    Buffer.leBytes 4 desc.bgInodeTable ++ Buffer.leBytes 2 desc.bgFreeBlocksCount ++
    Buffer.leBytes 2 desc.bgFreeInodesCount ++ Buffer.leBytes 2 desc.bgUsedDirsCount ++
    Buffer.leBytes 2 desc.bgFlags ++ List.replicate 10 0

def groupChecksum (uuid : List UInt8) (i : Nat) (desc : Ext2GroupDesc) : Nat :=
  ext4Crc16 (ext4Crc16 (ext4Crc16 65535 uuid) (Buffer.leBytes 4 i)) desc.bytes

end MakeExt4fs
