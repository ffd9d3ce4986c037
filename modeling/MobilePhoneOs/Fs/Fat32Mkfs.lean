import MobilePhoneOs.Fs.Fat32Dir

/-!
# A freshly made FAT32 volume (`fs/fat32.c`)

`fat32_sniff` and `fat_mount` take the geometry from the boot sector again. The law says what
they find after `fat32_mkfs`, on a device without faults to come.
-/

namespace MobilePhoneOs.Fs
namespace Fat32

open Mem Prog

/-- `totsec` of a boot sector. -/
def totalSectors (bs : ℕ → UInt8) : ℕ := if load bs 32 4 = 0 then load bs 19 2 else load bs 32 4

/-- `fat32_sniff` of a partition of `nsect` sectors. -/
def fat32Sniff (nsect : ℕ) (d : Dev) : Bool :=
  if nsect = 0 then false
  else
    match (d.read 0).1 with
    | .error _ => false
    | .ok bs =>
      let fs := geometry bs
      if bs 510 ≠ 0x55 ∨ bs 511 ≠ 0xAA then false
      else if load bs 11 2 ≠ 512 then false
      else if pow2 fs.secPerClus = false ∨ fs.secPerClus > 128 ∨ fs.reserved = 0 ∨
          (fs.nfats ≠ 1 ∧ fs.nfats ≠ 2) ∨ fs.fatsz = 0 ∨ totalSectors bs ≤ fs.dataStart ∨
          totalSectors bs > nsect then false
      else fs.totalClusters ≥ 4085 ∧ fs.rootClus ≥ 2 ∧ fs.rootClus < fs.totalClusters + 2

/-- The device without faults to come. -/
def quiet (d : Dev) : Dev := { d with faults := [] }

/-- The regions of a volume, each as its first sector and the number of its sectors: the reserved
sectors, the copies of the FAT, and the data. -/
def regions (fs : FatFs) : List (ℕ × ℕ) :=
  (0, fs.reserved) :: (List.range fs.nfats).map (fun i => (fs.reserved + i * fs.fatsz, fs.fatsz)) ++
    [(fs.dataStart, fs.totalClusters * fs.secPerClus)]

/-- Word `n` of copy `i` of the FAT. -/
def fatWord (fs : FatFs) (d : Dev) (i n : ℕ) : ℕ :=
  load d.data (512 * (fs.reserved + i * fs.fatsz) + 4 * n) 4

/-- A volume as `fat_mount` has found it on a partition of `nsect` sectors: the FAT has room for
every cluster, no two regions meet, every cluster but that of the root is free, and the root
directory is empty. -/
structure VolumeLaw (fs : FatFs) (nsect : ℕ) (d : Dev) : Prop where
  room : fs.totalClusters + 2 ≤ 128 * fs.fatsz
  disjoint : (regions fs).Pairwise fun r s => r.1 + r.2 ≤ s.1 ∨ s.1 + s.2 ≤ r.1
  inside : ∀ r ∈ regions fs, r.1 + r.2 ≤ nsect
  free : ∀ i < fs.nfats, ∀ c, 2 ≤ c → c < fs.totalClusters + 2 →
    (fatWord fs d i c = 0 ↔ c ≠ fs.rootClus)
  empty : dirNext fs fs.rootClus 0 d = (.ok none, d)

/-- The volume that `fat32_mkfs` has made. -/
structure MkfsLaw (nsect : ℕ) (d : Dev) : Prop where
  sniff : fat32Sniff nsect (quiet d) = true
  mounts : ∃ fs, fatMount (quiet d) = (.ok fs, quiet d) ∧ VolumeLaw fs nsect (quiet d)

/-- The number of sectors, cut to 32 bits, is behind the FATs, and the FATs have room for the
clusters from there on. -/
def Fits (nsect : ℕ) : Prop :=
  32 + 2 * mkfsFatsz nsect < nsect % 2 ^ 32 ∧
    nsect % 2 ^ 32 - (32 + 2 * mkfsFatsz nsect) + 2 ≤ 128 * mkfsFatsz nsect

instance (nsect : ℕ) : Decidable (Fits nsect) := inferInstanceAs (Decidable (_ ∧ _))

end Fat32
end MobilePhoneOs.Fs
