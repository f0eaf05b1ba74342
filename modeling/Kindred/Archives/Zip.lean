import Kindred.Lib.Records

/-! ZIP archives of stored files: the two writers, and a reader that follows the end record and the
central directory. -/

namespace Kindred.Archives
open Lib (Bytes LittleEndian record record_eq readFields readFields_append)

def crcStep (c : BitVec 32) : BitVec 32 :=
  if c &&& 1 = 1 then 0xedb88320 ^^^ (c >>> 1) else c >>> 1

def CRC_TABLE : List (BitVec 32) := (List.range 256).map fun n => crcStep^[8] (BitVec.ofNat 32 n)

def crc32 (buf : Bytes) : ℕ :=
  (buf.foldl (fun c b => CRC_TABLE.getD ((c ^^^ BitVec.ofNat 32 b.toNat) &&& 0xff).toNat 0 ^^^
    (c >>> 8)) 0xffffffff ^^^ 0xffffffff).toNat

/-- What is read of a `Date`: in local time by `ZipBuilder`, in UTC by `buildStoreZip`. -/
structure DateFields where
  year : ℤ
  month : ℕ
  day : ℕ
  hours : ℕ
  minutes : ℕ
  seconds : ℕ

namespace DateFields

def dosTime (d : DateFields) : ℕ :=
  (d.hours &&& 0x1f) <<< 11 ||| (d.minutes &&& 0x3f) <<< 5 ||| d.seconds / 2 &&& 0x1f

def dosDate (d : DateFields) : ℕ :=
  ((d.year - 1980) % 128).toNat <<< 9 ||| (d.month + 1 &&& 0xf) <<< 5 ||| d.day &&& 0x1f

end DateFields

/-- A name, its content and when it is added. -/
structure ZipFile where
  name : String
  data : Bytes
  date : DateFields

def utf8 (name : String) : Bytes := name.toByteArray.data.toList

/-- `Buffer.alloc(30)` and what is written there. -/
def localHeader (time date crc size nameLength : ℕ) : List LittleEndian :=
  [⟨4, 0x04034b50, 0⟩, ⟨2, 20, 4⟩, ⟨2, 0x0800, 6⟩, ⟨2, 0, 8⟩, ⟨2, time, 10⟩, ⟨2, date, 12⟩,
    ⟨4, crc, 14⟩, ⟨4, size, 18⟩, ⟨4, size, 22⟩, ⟨2, nameLength, 26⟩, ⟨2, 0, 28⟩]

/-- `Buffer.alloc(46)`, likewise. -/
def centralHeader (time date crc size nameLength offset : ℕ) : List LittleEndian :=
  [⟨4, 0x02014b50, 0⟩, ⟨2, 20, 4⟩, ⟨2, 20, 6⟩, ⟨2, 0x0800, 8⟩, ⟨2, 0, 10⟩, ⟨2, time, 12⟩,
    ⟨2, date, 14⟩, ⟨4, crc, 16⟩, ⟨4, size, 20⟩, ⟨4, size, 24⟩, ⟨2, nameLength, 28⟩, ⟨2, 0, 30⟩,
    ⟨2, 0, 32⟩, ⟨2, 0, 34⟩, ⟨2, 0, 36⟩, ⟨4, 0, 38⟩, ⟨4, offset, 42⟩]

/-- `Buffer.alloc(22)`, likewise. -/
def endRecord (count cdSize cdOffset : ℕ) : List LittleEndian :=
  [⟨4, 0x06054b50, 0⟩, ⟨2, 0, 4⟩, ⟨2, 0, 6⟩, ⟨2, count, 8⟩, ⟨2, count, 10⟩, ⟨4, cdSize, 12⟩,
    ⟨4, cdOffset, 16⟩, ⟨2, 0, 20⟩]

structure ZipEntry where
  name : String
  data : Bytes
  crc32 : ℕ
  size : ℕ
  offset : ℕ
  modTime : ℕ
  modDate : ℕ

def ZipEntry.central (e : ZipEntry) : Option Bytes := do
  let nameBuf := utf8 e.name
  let cd ← record (centralHeader e.modTime e.modDate e.crc32 e.size nameBuf.length e.offset)
  return cd ++ nameBuf

structure ZipBuilder where
  entries : List ZipEntry := []
  chunks : List Bytes := []
  offset : ℕ := 0

namespace ZipBuilder

def add (zip : ZipBuilder) (file : ZipFile) : Option ZipBuilder := do
  let entry : ZipEntry :=
    { name := file.name, data := file.data, crc32 := crc32 file.data, size := file.data.length
      offset := zip.offset, modTime := file.date.dosTime, modDate := file.date.dosDate }
  let nameBuf := utf8 file.name
  let header ← record
    (localHeader entry.modTime entry.modDate entry.crc32 entry.size nameBuf.length)
  return { entries := zip.entries ++ [entry], chunks := zip.chunks ++ [header, nameBuf, file.data]
           offset := zip.offset + header.length + nameBuf.length + file.data.length }

def build (zip : ZipBuilder) : Option Bytes := do
  let cdChunks ← zip.entries.mapM ZipEntry.central
  let eocd ← record
    (endRecord zip.entries.length (cdChunks.map List.length).sum zip.offset)
  return zip.chunks.flatten ++ cdChunks.flatten ++ eocd

end ZipBuilder

/-- An archive as the callers of `ZipBuilder` make it. -/
def zipFiles (files : List ZipFile) : Option Bytes := do
  (← files.foldlM ZipBuilder.add {}).build

def storeEntry : List Bytes × List Bytes × ℕ → ZipFile → Option (List Bytes × List Bytes × ℕ)
  | (localParts, centralParts, offset), entry => do
    let nameBuf := utf8 entry.name
    let crc := crc32 entry.data
    let size := entry.data.length
    let header ← record (localHeader entry.date.dosTime entry.date.dosDate crc size nameBuf.length)
    let central ← record
      (centralHeader entry.date.dosTime entry.date.dosDate crc size nameBuf.length offset)
    return (localParts ++ [header, nameBuf, entry.data], centralParts ++ [central, nameBuf],
      offset + header.length + nameBuf.length + size)

def buildStoreZip (entries : List ZipFile) : Option Bytes := do
  let (localParts, centralParts, offset) ← entries.foldlM storeEntry ([], [], 0)
  let centralBuf := centralParts.flatten
  let eocd ← record (endRecord entries.length centralBuf.length offset)
  return localParts.flatten ++ centralBuf ++ eocd

/-- What a reader finds of a file. -/
structure Found where
  name : String
  time : ℕ
  date : ℕ
  crc : ℕ
  data : Bytes

def ZipFile.found (f : ZipFile) : Found :=
  ⟨f.name, f.date.dosTime, f.date.dosDate, crc32 f.data, f.data⟩

def widths (header : List LittleEndian) : List ℕ := header.map LittleEndian.width

/-- The entry at a place of the central directory, and where the next one is. The header before its
content has to say the same. -/
def readEntry (bytes : Bytes) (pos : ℕ) : Option (Found × ℕ) := do
  let c := readFields (widths (centralHeader 0 0 0 0 0 0)) (bytes.drop pos)
  let field := fun i => c.getD i 0
  let l := readFields (widths (localHeader 0 0 0 0 0)) (bytes.drop (field 16))
  let nameBuf := (bytes.drop (pos + 46)).take (field 10)
  let body := bytes.drop (field 16 + 30)
  let data := (body.drop (field 10 + l.getD 10 0)).take (field 9)
  guard (field 0 = 0x02014b50 ∧ l.take 10 = 0x04034b50 :: (c.drop 2).take 9 ∧
    body.take (field 10) = nameBuf ∧ data.length = field 9 ∧ crc32 data = field 7)
  let name ← String.fromUTF8? ⟨nameBuf.toArray⟩
  return (⟨name, field 5, field 6, field 7, data⟩, pos + 46 + field 10 + field 11 + field 12)

def readEntries (bytes : Bytes) : ℕ → ℕ → Option (List Found)
  | 0, _ => some []
  | count + 1, pos => do
    let (found, next) ← readEntry bytes pos
    return found :: (← readEntries bytes count next)

/-- The end record is looked for from the end. -/
def readZip (bytes : Bytes) : Option (List Found) := do
  let pos ← (List.range (bytes.length - 21)).reverse.find? fun i =>
    readFields [4] (bytes.drop i) = [0x06054b50]
  let e := readFields (widths (endRecord 0 0 0)) (bytes.drop pos)
  readEntries bytes (e.getD 4 0) (e.getD 6 0)

variable {file : ZipFile} {files : List ZipFile} {offset : ℕ} {bytes : Bytes}

namespace ZipFile

def Small (f : ZipFile) : Prop := f.data.length < 2 ^ 32 ∧ (utf8 f.name).length < 2 ^ 16

instance (f : ZipFile) : Decidable f.Small := inferInstanceAs (Decidable (_ ∧ _))

def localFields (f : ZipFile) : List LittleEndian :=
  localHeader f.date.dosTime f.date.dosDate (crc32 f.data) f.data.length (utf8 f.name).length

def centralFields (f : ZipFile) (offset : ℕ) : List LittleEndian :=
  centralHeader f.date.dosTime f.date.dosDate (crc32 f.data) f.data.length (utf8 f.name).length offset

def parts (f : ZipFile) : List Bytes :=
  [f.localFields.flatMap LittleEndian.bytes, utf8 f.name, f.data]

def central (f : ZipFile) (offset : ℕ) : Bytes :=
  (f.centralFields offset).flatMap LittleEndian.bytes

def entry (f : ZipFile) (offset : ℕ) : ZipEntry :=
  ⟨f.name, f.data, crc32 f.data, f.data.length, offset, f.date.dosTime, f.date.dosDate⟩

end ZipFile

/-- The parts before the central directory. -/
def locals (files : List ZipFile) : List Bytes := files.flatMap ZipFile.parts

/-- Every file with the place of its header. -/
def placed : ℕ → List ZipFile → List (ZipFile × ℕ)
  | _, [] => []
  | offset, f :: files => (f, offset) :: placed (offset + f.parts.flatten.length) files

/-- A header can say where it is. -/
def Addressed (p : ZipFile × ℕ) : Prop := p.1.Small ∧ p.2 < 2 ^ 32

instance (p : ZipFile × ℕ) : Decidable (Addressed p) := inferInstanceAs (Decidable (_ ∧ _))

def directory (files : List ZipFile) (offset : ℕ) : Bytes :=
  (placed offset files).flatMap fun p => p.1.central p.2 ++ utf8 p.1.name

/-- What both write. -/
def archive (files : List ZipFile) : Bytes :=
  (locals files).flatten ++ directory files 0 ++ (endRecord files.length (directory files 0).length
    (locals files).flatten.length).flatMap LittleEndian.bytes

/-- Nothing is too large for its field. -/
def Fits (files : List ZipFile) : Prop :=
  (∀ p ∈ placed 0 files, Addressed p) ∧ files.length < 2 ^ 16 ∧
    (directory files 0).length < 2 ^ 32 ∧ (locals files).flatten.length < 2 ^ 32

instance (files : List ZipFile) : Decidable (Fits files) := inferInstanceAs (Decidable (_ ∧ _))

theorem dos_lt (d : DateFields) : d.dosTime < 2 ^ 16 ∧ d.dosDate < 2 ^ 16 := by
  have hand : ∀ n m k : ℕ, m < 2 ^ k → n &&& m < 2 ^ k := fun n m k h =>
    Nat.and_le_right.trans_lt h
  have hshift : ∀ n k s : ℕ, n < 2 ^ k → n <<< s < 2 ^ (k + s) := fun n k s h => by
    rw [Nat.shiftLeft_eq, Nat.pow_add]
    exact Nat.mul_lt_mul_of_pos_right h (Nat.two_pow_pos s)
  refine ⟨Nat.or_lt_two_pow (Nat.or_lt_two_pow ?_ ?_) (hand _ _ 16 (by decide)),
    Nat.or_lt_two_pow (Nat.or_lt_two_pow ?_ ?_) (hand _ _ 16 (by decide))⟩
  · exact hshift _ 5 11 (hand _ _ 5 (by decide))
  · exact (hshift _ 6 5 (hand _ _ 6 (by decide))).trans (by decide)
  · exact hshift _ 7 9 (by omega)
  · exact (hshift _ 4 5 (hand _ _ 4 (by decide))).trans (by decide)

theorem local_fits : (∀ f ∈ file.localFields, f.Fits) ↔ file.Small := by
  have hdos := dos_lt file.date
  have hcrc : crc32 file.data < 2 ^ 32 := BitVec.isLt _
  simp [ZipFile.localFields, localHeader, LittleEndian.Fits, ZipFile.Small]
  omega

theorem central_fits : (∀ f ∈ file.centralFields offset, f.Fits) ↔ Addressed (file, offset) := by
  have hdos := dos_lt file.date
  have hcrc : crc32 file.data < 2 ^ 32 := BitVec.isLt _
  simp [ZipFile.centralFields, centralHeader, LittleEndian.Fits, Addressed, ZipFile.Small]
  omega

variable {count size pos : ℕ} {rest rest' : Bytes}

theorem end_fits : (∀ f ∈ endRecord count size offset, f.Fits) ↔
    count < 2 ^ 16 ∧ size < 2 ^ 32 ∧ offset < 2 ^ 32 := by
  simp [endRecord, LittleEndian.Fits]

theorem local_eq : record file.localFields =
    if file.Small then some (file.localFields.flatMap LittleEndian.bytes) else none :=
  (record_eq (by simp [LittleEndian.Placed, ZipFile.localFields, localHeader])).trans
    (if_congr local_fits rfl rfl)

theorem central_eq : record (file.centralFields offset) =
    if Addressed (file, offset) then some (file.central offset) else none :=
  (record_eq (by simp [LittleEndian.Placed, ZipFile.centralFields, centralHeader])).trans
    (if_congr central_fits rfl rfl)

theorem end_eq : record (endRecord count size offset) =
    if count < 2 ^ 16 ∧ size < 2 ^ 32 ∧ offset < 2 ^ 32 then
      some ((endRecord count size offset).flatMap LittleEndian.bytes) else none :=
  (record_eq (by simp [LittleEndian.Placed, endRecord])).trans (if_congr end_fits rfl rfl)

theorem add_eq (zip : ZipBuilder) : zip.add file = if file.Small then
    some ⟨zip.entries ++ [file.entry zip.offset], zip.chunks ++ file.parts,
      zip.offset + file.parts.flatten.length⟩ else none := by
  refine (congrArg (Option.bind · _) local_eq).trans ?_
  split <;> simp [ZipFile.parts, ZipFile.entry, Nat.add_assoc]

theorem adds_eq (zip : ZipBuilder) : files.foldlM ZipBuilder.add zip = if ∀ f ∈ files, f.Small then
      some ⟨zip.entries ++ (placed zip.offset files).map fun p => p.1.entry p.2,
        zip.chunks ++ locals files, zip.offset + (locals files).flatten.length⟩ else none := by
  induction files generalizing zip with
  | nil => simp [placed, locals]
  | cons f files ih =>
    rw [List.foldlM_cons, add_eq]
    by_cases hf : f.Small
    · simp [hf, ih, placed, locals, Nat.add_assoc]
    · simp [hf]

theorem storeEntry_eq (parts cd : List Bytes) : storeEntry (parts, cd, offset) file =
    if Addressed (file, offset) then
      some (parts ++ file.parts, cd ++ [file.central offset, utf8 file.name],
        offset + file.parts.flatten.length) else none := by
  refine (congrArg (Option.bind · _) local_eq).trans ?_
  by_cases hf : file.Small
  · rw [if_pos hf]
    refine (congrArg (Option.bind · _) central_eq).trans ?_
    split <;> simp [ZipFile.parts, Nat.add_assoc]
  · rw [if_neg hf, if_neg fun h => hf h.1]
    rfl

theorem stores_eq (parts cd : List Bytes) : files.foldlM storeEntry (parts, cd, offset) =
    if ∀ p ∈ placed offset files, Addressed p then some (parts ++ locals files,
        cd ++ (placed offset files).flatMap fun p => [p.1.central p.2, utf8 p.1.name],
        offset + (locals files).flatten.length) else none := by
  induction files generalizing parts cd offset with
  | nil => simp [placed, locals]
  | cons f files ih =>
    rw [List.foldlM_cons, storeEntry_eq]
    simp only [placed, List.forall_mem_cons]
    by_cases hf : Addressed (f, offset)
    · rw [if_pos hf]
      refine (ih _ _).trans (if_congr (and_iff_right hf).symm ?_ rfl)
      simp [locals, Nat.add_assoc]
    · rw [if_neg hf, if_neg fun h => hf h.1]
      rfl

/-- What is left once the headers are written. -/
theorem end_archive (hfiles : ∀ p ∈ placed 0 files, Addressed p) :
    ((record (endRecord files.length (directory files 0).length
      (locals files).flatten.length)).bind fun eocd =>
        some ((locals files).flatten ++ directory files 0 ++ eocd)) =
      if Fits files then some (archive files) else none := by
  rw [end_eq]
  by_cases hend : files.length < 2 ^ 16 ∧ (directory files 0).length < 2 ^ 32 ∧
      (locals files).flatten.length < 2 ^ 32
  · rw [if_pos hend, if_pos ⟨hfiles, hend⟩]
    rfl
  · rw [if_neg hend, if_neg fun h => hend h.2]
    rfl

theorem store_eq : buildStoreZip files = if Fits files then some (archive files) else none := by
  have hcd : ((placed 0 files).flatMap fun p => [p.1.central p.2, utf8 p.1.name]).flatten =
      directory files 0 := by
    simp [directory, List.flatMap_assoc, ← List.flatMap_id']
  refine (congrArg (Option.bind · _) (stores_eq [] [])).trans ?_
  by_cases hfiles : ∀ p ∈ placed 0 files, Addressed p
  · rw [if_pos hfiles]
    simp only [Option.bind_some, List.nil_append, hcd, Nat.zero_add]
    exact end_archive hfiles
  · rw [if_neg hfiles, if_neg fun h => hfiles h.1]
    rfl

theorem central_entry (p : ZipFile × ℕ) : (p.1.entry p.2).central =
    if Addressed p then some (p.1.central p.2 ++ utf8 p.1.name) else none :=
   (congrArg (Option.bind · _) central_eq).trans (apply_ite (Option.bind · _) _ _ _)

theorem entries_eq (ps : List (ZipFile × ℕ)) :
    (ps.map fun p => p.1.entry p.2).mapM ZipEntry.central =
      if ∀ p ∈ ps, Addressed p then some (ps.map fun p => p.1.central p.2 ++ utf8 p.1.name)
      else none := by
  induction ps with
  | nil => simp
  | cons p ps ih =>
    rw [List.map_cons, List.mapM_cons, central_entry, ih]
    by_cases hp : Addressed p
    · by_cases hps : ∀ q ∈ ps, Addressed q
      · rw [if_pos hp, if_pos hps, if_pos (List.forall_mem_cons.mpr ⟨hp, hps⟩)]
        rfl
      · rw [if_pos hp, if_neg hps, if_neg fun h => hps (List.forall_mem_cons.mp h).2]
        rfl
    · rw [if_neg hp, if_neg fun h => hp (List.forall_mem_cons.mp h).1]
      rfl

theorem placed_fst (offset : ℕ) (files : List ZipFile) :
    (placed offset files).map Prod.fst = files := by
  induction files generalizing offset with
  | nil => rfl
  | cons f files ih => simp [placed, ih]

theorem zip_eq : zipFiles files = if Fits files then some (archive files) else none := by
  have hlength : (placed 0 files).length = files.length := by
    rw [← List.length_map Prod.fst, placed_fst]
  refine (congrArg (Option.bind · ZipBuilder.build) (adds_eq {})).trans ?_
  by_cases hfiles : ∀ p ∈ placed 0 files, Addressed p
  · have hsmall : ∀ f ∈ files, f.Small := fun f hf => by
      rw [← placed_fst 0 files] at hf
      obtain ⟨p, hp, rfl⟩ := List.mem_map.mp hf
      exact (hfiles p hp).1
    rw [if_pos hsmall]
    refine (congrArg (Option.bind · _) (entries_eq _)).trans ?_
    rw [if_pos hfiles]
    simp only [Option.bind_some, List.nil_append, Nat.zero_add, List.length_map, hlength,
      ← List.length_flatten, ← List.flatMap_def]
    exact end_archive hfiles
  · rw [if_neg (show ¬Fits files from fun h => hfiles h.1)]
    split
    · exact congrArg (Option.bind · _) ((entries_eq _).trans (if_neg hfiles))
    · rfl

theorem length_central : (file.central offset).length = 46 := by
  simp [ZipFile.central, ZipFile.centralFields, centralHeader, LittleEndian.bytes]

theorem readEntry_eq (hfile : Addressed (file, offset))
    (hc : bytes.drop pos = file.central offset ++ (utf8 file.name ++ rest))
    (hl : bytes.drop offset = file.parts.flatten ++ rest') :
    readEntry bytes pos = some (file.found, pos + 46 + (utf8 file.name).length) := by
  have hcentral := readFields_append (central_fits.mpr hfile) (utf8 file.name ++ rest)
  have hlocal := readFields_append (local_fits.mpr hfile.1) (utf8 file.name ++ (file.data ++ rest'))
  have hl' : bytes.drop offset =
      file.localFields.flatMap LittleEndian.bytes ++ (utf8 file.name ++ (file.data ++ rest')) := by
    simpa [ZipFile.parts] using hl
  rw [show (file.centralFields offset).flatMap LittleEndian.bytes = file.central offset from rfl,
    ← hc] at hcentral
  rw [← hl'] at hlocal
  have hname : bytes.drop (pos + 46) = utf8 file.name ++ rest := by
    rw [← List.drop_drop, hc, List.drop_left' length_central]
  have hbody : bytes.drop (offset + 30) = utf8 file.name ++ (file.data ++ rest') := by
    rw [← List.drop_drop, hl']
    exact List.drop_left' (by simp [ZipFile.localFields, localHeader, LittleEndian.bytes])
  have hutf8 : String.fromUTF8? ⟨(utf8 file.name).toArray⟩ = some file.name := by
    simp [String.fromUTF8?, utf8, file.name.isValidUTF8, String.fromUTF8]
  unfold readEntry
  rw [show widths (centralHeader 0 0 0 0 0 0) = widths (file.centralFields offset) from rfl,
    show widths (localHeader 0 0 0 0 0) = widths file.localFields from rfl]
  simp only [widths, hcentral]
  simp only [ZipFile.centralFields, centralHeader, List.map_cons, List.map_nil,
    List.getD_cons_succ, List.getD_cons_zero, hname, hbody, hlocal]
  simp [hutf8, ZipFile.localFields, localHeader, ZipFile.found]

theorem readEntries_eq (hfits : ∀ p ∈ placed offset files, Addressed p)
    (hc : bytes.drop pos = directory files offset ++ rest)
    (hl : bytes.drop offset = (locals files).flatten ++ rest') :
    readEntries bytes files.length pos = some (files.map ZipFile.found) := by
  induction files generalizing offset pos with
  | nil => rfl
  | cons f files ih =>
    obtain ⟨hf, hfiles⟩ := List.forall_mem_cons.mp hfits
    have hc' : bytes.drop pos = f.central offset ++ (utf8 f.name ++
        (directory files (offset + f.parts.flatten.length) ++ rest)) := by
      simpa [directory, placed] using hc
    have hl' : bytes.drop offset = f.parts.flatten ++ ((locals files).flatten ++ rest') := by
      simpa [locals] using hl
    have hrest : readEntries bytes files.length (pos + 46 + (utf8 f.name).length) = _ :=
      ih hfiles (by rw [← List.drop_drop, ← List.drop_drop, hc', List.drop_left' length_central,
        List.drop_left]) (by rw [← List.drop_drop, hl', List.drop_left])
    rw [List.length_cons, readEntries, readEntry_eq hf hc' hl']
    simp [hrest]

theorem readZip_archive (h : Fits files) :
    readZip (archive files) = some (files.map ZipFile.found) := by
  obtain ⟨hfiles, hend⟩ := h
  set eocd := endRecord files.length (directory files 0).length (locals files).flatten.length
    with heocd
  have hread := readFields_append (end_fits.mpr hend) []
  have hdrop : (archive files).drop ((locals files).flatten ++ directory files 0).length =
      eocd.flatMap LittleEndian.bytes := List.drop_left
  have hlength : (archive files).length - 21 =
      ((locals files).flatten ++ directory files 0).length + 1 := by
    simp [archive, endRecord, LittleEndian.bytes]
    omega
  have hfirst : readFields [4] (eocd.flatMap LittleEndian.bytes) = [0x06054b50] :=
    @readFields_append [⟨4, 0x06054b50, 0⟩] (by simp [LittleEndian.Fits]) _
  rw [List.append_nil] at hread
  unfold readZip
  rw [hlength, List.range_succ, List.reverse_append, List.reverse_singleton,
    List.singleton_append, List.find?_cons_of_pos (by rw [hdrop, hfirst]; rfl)]
  simp only [Option.bind_eq_bind, Option.bind_some, hdrop,
    show widths (endRecord 0 0 0) = widths eocd from rfl]
  rw [widths, hread]
  exact @readEntries_eq _ _ _ _ (eocd.flatMap LittleEndian.bytes)
    (directory files 0 ++ eocd.flatMap LittleEndian.bytes) hfiles
    ((congrArg (List.drop _) (List.append_assoc _ _ _)).trans List.drop_left)
    (List.append_assoc _ _ _)

/-- Both writers write one archive, where every number fits its field, and none otherwise; and a
reader finds in it what was put in. -/
theorem archives_read_back (files : List ZipFile) : zipFiles files = buildStoreZip files ∧
    ((zipFiles files).isSome ↔ Fits files) ∧
    ∀ bytes, zipFiles files = some bytes → readZip bytes = some (files.map ZipFile.found) := by
  refine ⟨zip_eq.trans store_eq.symm, ?_, fun bytes h => ?_⟩
  · rw [zip_eq]
    split <;> simp [*]
  · rw [zip_eq] at h
    split at h
    · rename_i hfits
      cases h
      exact readZip_archive hfits
    · cases h

end Kindred.Archives
