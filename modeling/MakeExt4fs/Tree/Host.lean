import MakeExt4fs.Contents.Files
import Mathlib.Data.List.Sort

namespace MakeExt4fs

inductive HostEntry where
  | mk (name : List UInt8) (lstat stat : Option HostStat) (readlink : Option (List UInt8))
      (contents : List UInt8) (listing : Option (List HostEntry))

namespace HostEntry

def name : HostEntry → List UInt8
  | mk name _ _ _ _ _ => name

def lstat : HostEntry → Option HostStat
  | mk _ lstat _ _ _ _ => lstat

def stat : HostEntry → Option HostStat
  | mk _ _ stat _ _ _ => stat

def readlink : HostEntry → Option (List UInt8)
  | mk _ _ _ readlink _ _ => readlink

def contents : HostEntry → List UInt8
  | mk _ _ _ _ contents _ => contents

def listing : HostEntry → Option (List HostEntry)
  | mk _ _ _ _ _ listing => listing

end HostEntry

def filterDot (name : List UInt8) : Bool := name ≠ [46, 46] && name ≠ [46]

-- alphasort in the C locale: strcmp, byte after byte.
def alphasortLe (a b : HostEntry) : Prop :=
  a.name.map UInt8.toNat ≤ b.name.map UInt8.toNat

instance : DecidableRel alphasortLe := fun a b =>
  inferInstanceAs (Decidable (a.name.map UInt8.toNat ≤ b.name.map UInt8.toNat))

def sortListing (l : List HostEntry) : List HostEntry :=
  (l.filter fun e => filterDot e.name).insertionSort alphasortLe

mutual

def HostEntry.scanned : HostEntry → HostEntry
  | .mk name lstat stat readlink contents none => .mk name lstat stat readlink contents none
  | .mk name lstat stat readlink contents (some l) =>
    .mk name lstat stat readlink contents (some (sortListing (scannedAll l)))

def scannedAll : List HostEntry → List HostEntry
  | [] => []
  | e :: rest => e.scanned :: scannedAll rest

end

def scandir (listing : Option (List HostEntry)) : Option (List HostEntry) :=
  listing.map fun l => sortListing (scannedAll l)

end MakeExt4fs
